import HackToolchain.Proofs.Asm.Image

/-!
# Disassembling

The text of a word that the assembler has made is a line that it makes the same word of.  It need
not be the line that the word was made from.  A symbol has become a number, a sum that was written
as `A+D` has become `D+A`, and the registers of a destination stand in the order `A`, `D`, `M`.

* `IsEncoded.exists_statement`: the text of a word is read as an instruction with that word;
* `assemble_map_disassemble`: so a program that consists of such texts is assembled into the words;
* `listingLines_eq`: a listing has a line for each word;
* `assemble_disassemble`: what has been assembled can be disassembled without loss, as a whole and
  line by line of its listing.
-/

namespace HackToolchain.Asm

open Machine Text

/-! ### The text of a word -/

theorem Comp.exists_ofCode?_code (comp : Comp) :
    ∃ comp', ofCode? comp.code = some comp' ∧ comp'.code = comp.code := by
  have h : ∀ c ∈ all, (ofCode? c.code).map code = some c.code := by decide
  exact Option.map_eq_some_iff.1 (h comp comp.mem_all)

theorem Dest.bits_ofBits_bits (dest : Dest) : (ofBits dest.bits).bits = dest.bits := by
  have h : ∀ bits < 8, (ofBits bits).bits = bits := by decide
  exact h _ dest.bits_lt

/-- The word of a computation is shown as a computation that has the same word. -/
theorem Word.disassemble_encode (k : Compute) :
    ∃ k' : Compute, disassemble k.encode = k'.text ∧ k'.encode = k.encode := by
  obtain ⟨comp, hcomp, hcode⟩ := k.comp.exists_ofCode?_code
  refine ⟨⟨.ofBits k.dest.bits, comp, k.jump⟩, ?_, ?_⟩
  · rw [disassemble, isCompute_encode, if_pos rfl, computeText, code_encode, hcomp]
    simp only [dest_encode, jump_encode, Jump.ofBits_bits]
  · simp only [Compute.encode, hcode, Dest.bits_ofBits_bits]

theorem Word.disassemble_address {n : Nat} (h : n ≤ MemoryMap.maxAddress) :
    disassemble n = (Statement.address (.literal n)).text := by
  rw [disassemble, isCompute_address (Nat.lt_succ_of_le h), if_neg Bool.false_ne_true]
  rfl

section

variable {w : Int} {ws : List Int}

/-- The text of a word is read as an instruction with that word. -/
theorem IsEncoded.exists_statement (h : IsEncoded w) :
    ∃ x : Statement, (∀ number, Statement.read number (Word.disassemble w) = .ok (some x)) ∧
      x.label? = none ∧ ∀ address, x.word? address = some w := by
  cases h with
  | @address n h =>
    refine ⟨.address (.literal n), fun number => ?_, rfl, fun _ => ?_⟩
    · rw [Word.disassemble_address h]
      exact Statement.read_literal number h
    · exact congrArg some (addressWord_of_lt (Int.natCast_nonneg n) (Int.ofNat_le.2 h))
  | compute k =>
    obtain ⟨k', htext, hword⟩ := Word.disassemble_encode k
    refine ⟨.compute k', fun number => ?_, rfl, fun _ => ?_⟩
    · rw [htext]
      exact Statement.read_compute number k'
    · exact congrArg some (congrArg Nat.cast hword)

/-! ### Programs -/

/-- The texts of words are read as instructions with these words. -/
theorem exists_readStatements_disassemble (h : ∀ w ∈ ws, IsEncoded w) :
    ∃ program, readStatements (ws.map Word.disassemble) = .ok program ∧ labels program = [] ∧
      ∀ address, program.filterMap (Statement.word? address) = ws := by
  -- for any line number and any statements read before, since reading hands both on
  have hgo (number : Nat) (done : Array Statement) :
      ∃ program, (readStatements.go number done (ws.map Word.disassemble)).map Array.toList =
          .ok (done.toList ++ program) ∧ labels program = [] ∧
        ∀ address, program.filterMap (Statement.word? address) = ws := by
    induction ws generalizing number done with
    | nil => exact ⟨[], congrArg Except.ok (List.append_nil _).symm, rfl, fun _ => rfl⟩
    | cons w ws ih =>
      obtain ⟨hw, hws⟩ := List.forall_mem_cons.1 h
      obtain ⟨x, hread, hlabel, hword⟩ := hw.exists_statement
      obtain ⟨program, hrest, hlabels, hwords⟩ := ih hws (number + 1) (done.push x)
      refine ⟨x :: program, ?_, ?_, fun address => ?_⟩
      · rw [List.map_cons, readStatements.go, hread]
        dsimp only
        rw [hrest, Array.toList_push, List.append_assoc]
        rfl
      · rw [labels, List.filterMap_cons_none hlabel]
        exact hlabels
      · rw [List.filterMap_cons_some (hword address), hwords]
  exact hgo 1 #[]

/-- The texts of words are assembled into these words. -/
theorem assemble_map_disassemble (h : ∀ w ∈ ws, IsEncoded w) :
    assemble (ws.map Word.disassemble) = .ok ws.toArray := by
  obtain ⟨program, hread, hlabels, hwords⟩ := exists_readStatements_disassemble h
  have hnodup : (labels program).Nodup := by
    rw [hlabels]
    exact List.nodup_nil
  have hnew : ∀ name ∈ labels program, MemoryMap.predefined? name = none := by
    intro name hname
    rw [hlabels] at hname
    cases hname
  obtain ⟨words, hassemble⟩ := exists_assembleStatements hnodup hnew
  obtain ⟨hlist, -⟩ := assembleStatements_eq_ok hassemble
  rw [hwords] at hlist
  rw [assemble, hread]
  show assembleStatements program = _
  rw [hassemble, ← hlist]

/-! ### Listings -/

theorem IsEncoded.isHexadecimal (h : IsEncoded w) : IsHexadecimal 4 w (upperHex 4 w) := by
  obtain ⟨hlo, hhi⟩ := h.bounds
  obtain ⟨n, rfl⟩ := Int.eq_ofNat_of_zero_le hlo
  have hlength : (Nat.toDigits 16 n).length ≤ 4 :=
    (Nat.length_toDigits_le_iff (by decide) (by decide)).2 (Int.ofNat_lt.1 hhi)
  exact isHexadecimal_upperHex hlength

theorem Word.isUnbroken_disassemble (w : Int) : IsUnbroken (disassemble w).toList := by
  have hfield {cs : List Char} (h : ∀ c ∈ cs, isFieldChar c = true) : IsUnbroken cs :=
    fun c hc => isLineBreak_of_not_blank (isBlank_of_isFieldChar (.inl (h c hc)))
  unfold disassemble
  split
  · unfold computeText
    split
    · exact fun c hc => isLineBreak_of_not_blank (isBlank_of_isFieldChar (Compute.mem_text hc))
    · -- a code that is not in use leaves the registers and the jump
      dsimp only
      rw [String.toList_append]
      refine IsUnbroken.append ?_ ?_
      · split
        · exact isUnbroken_of_all rfl
        · rw [String.toList_append]
          exact (hfield (isFieldChar_dest _)).append (isUnbroken_of_all rfl)
      · split
        · exact isUnbroken_of_all rfl
        · rw [String.toList_append]
          exact IsUnbroken.append (isUnbroken_of_all rfl) (hfield (isFieldChar_jump _))
  · rw [String.toList_append]
    exact IsUnbroken.append (isUnbroken_of_all rfl) (isUnbroken_toString w)

theorem IsEncoded.isUnbroken_listingLine (h : IsEncoded w) (address : Nat) :
    IsUnbroken (listingLine address w).toList := by
  have hdash : IsUnbroken " - ".toList := isUnbroken_of_all (by decide)
  have hdigits : IsUnbroken (upperHex 4 w) := by
    have hall : IsUnbroken "0123456789ABCDEF".toList := isUnbroken_of_all (by decide)
    exact fun c hc => hall c (h.isHexadecimal.digits c hc)
  simp only [listingLine, String.toList_append, String.toList_ofList]
  exact ((((isUnbroken_toString_nat address).append hdash).append hdigits).append hdash).append
    (Word.isUnbroken_disassemble w)

/-- The lines of a listing. -/
def listingLines (words : List Int) : List String :=
  (splitLines (listing words).toList).map String.ofList

/-- A listing has a line for each word. -/
theorem listingLines_eq (h : ∀ w ∈ ws, IsEncoded w) :
    listingLines ws = ws.zipIdx.map fun (w, address) => listingLine address w := by
  have hunbroken : ∀ line ∈ (ws.zipIdx.map fun (w, address) => listingLine address w).map
      String.toList, IsUnbroken line ∧ line ≠ [] := by
    intro line hline
    rw [List.map_map, List.mem_map] at hline
    obtain ⟨⟨w, address⟩, hmem, rfl⟩ := hline
    have hw := h w (List.fst_mem_of_mem_zipIdx hmem)
    refine ⟨hw.isUnbroken_listingLine address, ?_⟩
    simp [listingLine]
  have hjoin : (listing ws).toList = ['\n'].intercalate
      ((ws.zipIdx.map fun (w, address) => listingLine address w).map String.toList) :=
    String.toList_intercalate
  rw [listingLines, hjoin, splitLines_intercalate (fun line hline => (hunbroken line hline).1)
    fun line hline => (hunbroken line hline).2, List.map_map]
  exact List.map_id'' (fun _ => String.ofList_toList) _

end

/-- What has been assembled can be disassembled and assembled again without loss.  In its listing
there is a line for each word: the address, the four hexadecimal digits of the word, and a text that
is assembled into the word. -/
theorem assemble_disassemble {lines : List String} {words : Array Int}
    (h : assemble lines = .ok words) :
    assemble (words.toList.map Word.disassemble) = .ok words ∧
      (listingLines words.toList).length = words.size ∧
      ∀ (address : Nat) (w : Int), words[address]? = some w → ∃ digits text : String,
        (listingLines words.toList)[address]? =
          some (toString address ++ " - " ++ digits ++ " - " ++ text) ∧
        IsHexadecimal 4 w digits.toList ∧ assemble [text] = .ok #[w] := by
  have hencoded : ∀ w ∈ words.toList, IsEncoded w :=
    fun w hw => assemble_isEncoded h w (Array.mem_toList_iff.1 hw)
  refine ⟨assemble_map_disassemble hencoded, ?_, fun address w hw => ?_⟩
  · rw [listingLines_eq hencoded, List.length_map, List.length_zipIdx, Array.length_toList]
  · -- the line at an address is that of the word there
    have hmem := hencoded w (Array.mem_toList_iff.2 (Array.mem_of_getElem? hw))
    refine ⟨String.ofList (upperHex 4 w), Word.disassemble w, ?_, ?_, ?_⟩
    · rw [listingLines_eq hencoded, List.getElem?_map, List.getElem?_zipIdx, Array.getElem?_toList,
        hw]
      show some (listingLine (0 + address) w) = _
      rw [Nat.zero_add]
      rfl
    · rw [String.toList_ofList]
      exact hmem.isHexadecimal
    · have hsingle := assemble_map_disassemble (List.forall_mem_singleton.2 hmem)
      exact hsingle

/-- A program in which no line is written as it is disassembled. -/
def looseSpelling : List String :=
  ["@R1", "DM = A+D", "(LOOP)", "@LOOP", "MA=M|D;JLE  // again", "@x"]

theorem assemble_disassemble_looseSpelling :
    ∃ words, assemble looseSpelling = .ok words ∧
      words.toList.map Word.disassemble = ["@1", "DM=D+A", "@2", "AM=D|M;JLE", "@16"] ∧
      assemble ["@1", "DM=D+A", "@2", "AM=D|M;JLE", "@16"] = .ok words ∧
      (listingLines words.toList).length = 5 ∧
      ∃ digits text : String,
        (listingLines words.toList)[3]? = some ("3 - " ++ digits ++ " - " ++ text) ∧
        IsHexadecimal 4 0xF56E digits.toList ∧ assemble [text] = .ok #[0xF56E] := by
  have hwords : assemble looseSpelling = .ok #[1, 0xE098, 2, 0xF56E, 16] := by rfl
  obtain ⟨hagain, hlength, hlines⟩ := assemble_disassemble hwords
  exact ⟨_, hwords, by rfl, hagain, hlength, hlines 3 0xF56E rfl⟩

end HackToolchain.Asm
