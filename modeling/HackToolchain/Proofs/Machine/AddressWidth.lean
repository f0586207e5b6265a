import HackToolchain.Proofs.Asm.Image
import HackToolchain.Proofs.Asm.Words
import HackToolchain.Proofs.Machine.Transition

/-!
# Addresses beyond fifteen bits

The word that loads an address holds fifteen bits of it.  A number of more bits is an error when its
line is read, but nothing checks the address that a symbol turns out to have: its word keeps the
last fifteen bits.  So a label is not where its jumps lead once `0x8000` instructions stand before
it, and variables share a cell once there are more than `0x8000` of them.

* `getElem?_words_symbol`: the word of a symbol, from its address;
* `next_next_of_jump`: where a jump through a loaded address leads;
* `assemble_cutsAddresses`: the words, the jumps and the cells of an assembled program, each with
  the condition under which it is what the symbols denote.
-/

namespace HackToolchain.Machine

open Asm Computer

/-! ### The words of a program by their places -/

/-- The instructions of a program, in order. -/
def instructions (program : List Statement) : List Statement :=
  program.filter Statement.isInstruction

theorem getElem?_filterMap_word? {word? : Statement → Option Int}
    (hword : ∀ x, (word? x).isSome = x.isInstruction) (program : List Statement) (place : Nat) :
    (program.filterMap word?)[place]? = (instructions program)[place]?.bind word? := by
  induction program generalizing place with
  | nil => rfl
  | cons x program ih =>
    have hx := hword x
    unfold instructions at ih ⊢
    cases hwordx : word? x with
    | none =>
      rw [hwordx] at hx
      rw [List.filterMap_cons_none hwordx, List.filter_cons_of_neg (by rw [← hx]; decide)]
      exact ih place
    | some word =>
      rw [hwordx] at hx
      rw [List.filterMap_cons_some hwordx, List.filter_cons_of_pos hx.symm]
      cases place with
      | zero => exact hwordx.symm
      | succ place => exact ih place

section Places

variable {program : List Statement} {words : Array Int} {place : Nat}

theorem getElem?_words (h : assembleStatements program = .ok words) :
    words[place]? =
      (instructions program)[place]?.bind (Statement.word? (symbolAddress program)) := by
  rw [← Array.getElem?_toList, (assembleStatements_eq_ok h).1]
  exact getElem?_filterMap_word? (isSome_word? _) program place

/-- The word of a symbol keeps fifteen bits of the address. -/
theorem getElem?_words_symbol (h : assembleStatements program = .ok words) {name : String}
    (hplace : (instructions program)[place]? = some (.address (.symbol name))) :
    words[place]? = some ((symbolAddress program name % 0x8000 : Nat) : Int) := by
  rw [getElem?_words h, hplace, Option.bind_some, Statement.word?, addressWord]
  rfl

theorem getElem?_words_compute (h : assembleStatements program = .ok words) {k : Compute}
    (hplace : (instructions program)[place]? = some (.compute k)) :
    words[place]? = some (k.encode : Int) := by
  rw [getElem?_words h, hplace]
  rfl

/-- A symbol of an assembled program denotes its address and nothing else. -/
theorem denotes_iff (h : assembleStatements program = .ok words) {name : String}
    (hplace : (instructions program)[place]? = some (.address (.symbol name))) (u : Int) :
    Denotes program (.address (.symbol name)) u ↔ u = symbolAddress program name := by
  obtain ⟨-, hnodup, hnew⟩ := assembleStatements_eq_ok h
  constructor
  · exact Denotes.eq_symbolAddress hnodup hnew
  · rintro rfl
    have hmem := (List.mem_filter.1 (List.mem_of_getElem? hplace)).1
    exact denotes_symbolAddress (List.mem_filterMap.2 ⟨_, hmem, rfl⟩)

theorem symbolAddress_of_label (h : assembleStatements program = .ok words)
    {front back : List Statement} {name : String}
    (hsplit : program = front ++ .label name :: back) :
    symbolAddress program name = wordCount front := by
  obtain ⟨-, hnodup, hnew⟩ := assembleStatements_eq_ok h
  rw [symbolAddress, knownAddress?_of_label hnodup hnew hsplit, Option.getD_some]

theorem symbolAddress_of_variable (h : assembleStatements program = .ok words) {i : Nat}
    {name : String} (hi : (variableNames program)[i]? = some name) :
    symbolAddress program name = MemoryMap.variableBase + i := by
  obtain ⟨-, hnodup, hnew⟩ := assembleStatements_eq_ok h
  have hdenotes := (Denotes.variable hi).eq_symbolAddress hnodup hnew
  exact (Int.ofNat_inj.1 hdenotes).symm

end Places

/-! ### Jumps through a loaded address -/

section Jumps

variable {c : Computer} {s : State}

theorem next_of_address {address : Nat} (hrun : s.halted = false)
    (hfetch : c.rom[s.pc.toNat]? = some (address : Int)) (haddress : address < 0x8000) :
    (c.next s).data.a = address ∧ (c.next s).pc = s.pc + 1 ∧
      (c.next s).halted = c.isPastEnd (s.pc + 1) := by
  have hword := Word.isCompute_address haddress
  rw [next_of_fetch hrun hfetch, proceed]
  simp only [Storage.executed, successor, idles, hword, Bool.false_and, Bool.false_or,
    Bool.false_eq_true, if_false, and_self]

theorem next_of_jump {k : Compute} (hrun : s.halted = false)
    (hfetch : c.rom[s.pc.toNat]? = some (k.encode : Int))
    (htaken : takesJump k.jump.bits (c.next s).data.zr (c.next s).data.ng = true) :
    (c.next s).pc = s.data.a := by
  rw [next_of_fetch hrun hfetch, proceed] at htaken ⊢
  simp only [successor, Word.isCompute_encode, Word.jump_encode, Bool.true_and] at htaken ⊢
  rw [if_pos htaken]
  rfl

/-- A jump that is taken leads to the address that the instruction before it loads. -/
theorem next_next_of_jump {address : Nat} {k : Compute} (hs : s.IsSound) (hrun : s.halted = false)
    (haddress : address < 0x8000) (hload : c.rom[s.pc.toNat]? = some (address : Int))
    (hjump : c.rom[s.pc.toNat + 1]? = some (k.encode : Int))
    (htaken : takesJump k.jump.bits (c.next (c.next s)).data.zr (c.next (c.next s)).data.ng =
      true) :
    (c.next (c.next s)).pc = address := by
  obtain ⟨ha, hpc, hhalted⟩ := next_of_address hrun hload haddress
  have hnonneg := hs.pc
  have hplace : (c.next s).pc.toNat = s.pc.toNat + 1 := by
    rw [hpc]
    omega
  have hrun' : (c.next s).halted = false := by
    obtain ⟨hlt, -⟩ := Array.getElem?_eq_some_iff.1 hjump
    rw [hhalted, isPastEnd, decide_eq_false_iff_not]
    omega
  rw [next_of_jump hrun' (by rw [hplace]; exact hjump) htaken, ha]

end Jumps

/-! ### Assembled programs -/

/-- What is left of the addresses of a program in its words. -/
structure CutsAddresses (program : List Statement) (words : Array Int) : Prop where
  /-- The word of a symbol holds the last fifteen bits of what the symbol denotes, and so is what it
  denotes if and only if that is below `0x8000`. -/
  word {place : Nat} {name : String}
    (hplace : (instructions program)[place]? = some (.address (.symbol name))) :
    ∃ v : Nat, (∀ u, Denotes program (.address (.symbol name)) u ↔ u = v) ∧
      words[place]? = some ((v % 0x8000 : Nat) : Int) ∧
      (words[place]? = some (v : Int) ↔ v < 0x8000)
  /-- A jump through a label leads there when it is taken, and so to the instruction after the label
  if and only if less than `0x8000` instructions stand before it. -/
  jump {front back : List Statement} {name : String} {place : Nat} {k : Compute}
    (hsplit : program = front ++ .label name :: back)
    (hload : (instructions program)[place]? = some (.address (.symbol name)))
    (hjump : (instructions program)[place + 1]? = some (.compute k)) {c : Computer} {s : State}
    (hrom : c.rom = words) (hschedule : ∀ event ∈ c.schedule, 0 ≤ event.address)
    (hs : s.IsSound) (hrun : s.halted = false) (hpc : s.pc = place) :
    ∃ t, c.ticks 2 s = .ok t ∧ (takesJump k.jump.bits t.data.zr t.data.ng = true →
      t.pc = (wordCount front % 0x8000 : Nat) ∧
      (t.pc = wordCount front ↔ wordCount front < 0x8000))
  /-- The words of two variables are the same if and only if their numbers have the same last
  fifteen bits. -/
  cells {i j : Nat} {name other : String} {place place' : Nat}
    (hi : (variableNames program)[i]? = some name) (hj : (variableNames program)[j]? = some other)
    (hplace : (instructions program)[place]? = some (.address (.symbol name)))
    (hplace' : (instructions program)[place']? = some (.address (.symbol other))) :
    words[place]? = words[place']? ↔ i % 0x8000 = j % 0x8000

/-- A program that is assembled keeps the last fifteen bits of its addresses, however long it is. -/
theorem assemble_cutsAddresses {lines : List String} {words : Array Int}
    (h : assemble lines = .ok words) :
    ∃ program, readStatements lines = .ok program ∧ CutsAddresses program words := by
  have hbounds := assemble_bounds h
  obtain ⟨program, hread, hwords⟩ := exists_program_of_assemble h
  refine ⟨program, hread, ?_, ?_, ?_⟩
  · -- fifteen bits of an address fit a word
    intro place name hplace
    have hword := getElem?_words_symbol hwords hplace
    refine ⟨symbolAddress program name, denotes_iff hwords hplace, hword, ?_⟩
    rw [hword, Option.some.injEq]
    omega
  · -- a jump to a label lands where these bits point
    intro front back name place k hsplit hload hjump c s hrom hschedule hs hrun hpc
    have hword := getElem?_words_symbol hwords hload
    rw [symbolAddress_of_label hwords hsplit] at hword
    have hc : c.IsWellFormed := ⟨by rwa [hrom], hschedule⟩
    have hlt : wordCount front % 0x8000 < 0x8000 := Nat.mod_lt _ (by decide)
    have hfetch : c.rom[s.pc.toNat]? = some ((wordCount front % 0x8000 : Nat) : Int) := by
      rw [hrom, hpc]
      exact hword
    have hfetch' : c.rom[s.pc.toNat + 1]? = some (k.encode : Int) := by
      rw [hrom, hpc]
      exact getElem?_words_compute hwords hjump
    refine ⟨_, ticks_eq_iterate hc hs 2, fun htaken => ?_⟩
    have hlanding := next_next_of_jump hs hrun hlt hfetch hfetch' htaken
    refine ⟨hlanding, ?_⟩
    show (c.next (c.next s)).pc = _ ↔ _
    rw [hlanding]
    omega
  · -- two variables share a cell if these bits agree
    intro i j name other place place' hi hj hname hother
    have hbase : MemoryMap.variableBase = 16 := rfl
    rw [getElem?_words_symbol hwords hname, getElem?_words_symbol hwords hother,
      symbolAddress_of_variable hwords hi, symbolAddress_of_variable hwords hj, Option.some.injEq]
    omega

/-- The instructions of `branchOut`, all of which stand before its label. -/
def branchOutFront : List Statement :=
  [.address (.symbol "END"), .compute { comp := .d, jump := .eq }, .address (.symbol "sum"),
    .address (.literal 7), .address (.symbol "SP")]

theorem assemble_cutsAddresses_branchOut :
    ∃ program words, readStatements branchOut = .ok program ∧ assemble branchOut = .ok words ∧
      CutsAddresses program words ∧
      ∃ t, ({ rom := words } : Computer).ticks 2 (State.fresh 1) = .ok t ∧ t.pc = 5 := by
  have hwords : assemble branchOut = .ok #[5, 0xE302, 16, 7, 0] := by rfl
  have hbranch : readStatements branchOut = .ok (branchOutFront ++ [.label "END"]) := by rfl
  obtain ⟨program, hread, hcuts⟩ := assemble_cutsAddresses hwords
  obtain rfl : branchOutFront ++ [.label "END"] = program := by
    rw [hbranch] at hread
    injection hread
  have hload : (instructions (branchOutFront ++ [.label "END"]))[0]? =
      some (.address (.symbol "END")) := rfl
  have hjump : (instructions (branchOutFront ++ [.label "END"]))[0 + 1]? =
      some (.compute { comp := .d, jump := .eq }) := rfl
  obtain ⟨t, ht, hpc⟩ := hcuts.jump rfl hload hjump (c := { rom := #[5, 0xE302, 16, 7, 0] }) rfl
    (fun event hevent => absurd hevent List.not_mem_nil) (State.isSound_fresh 1) rfl rfl
  -- `D` is zero at the start
  have htaken : takesJump Jump.eq.bits t.data.zr t.data.ng = true := by
    injection ht with ht
    rw [← ht]
    rfl
  exact ⟨_, _, hread, hwords, hcuts, t, ht, (hpc htaken).1⟩

/-! ### A label behind too many instructions -/

/-- A jump over a computation that is repeated. -/
def longJump (n : Nat) : List Statement :=
  .address (.symbol "END") :: List.replicate n (.compute { comp := .zero }) ++ [.label "END"]

theorem readStatements_longJump (n : Nat) :
    readStatements ((longJump n).map Statement.text) = .ok (longJump n) := by
  refine readStatements_map_text fun x hx number => ?_
  rcases List.mem_append.1 hx with hx | hx
  · rcases List.mem_cons.1 hx with rfl | hx
    · rfl
    · rw [List.eq_of_mem_replicate hx]
      exact Statement.read_compute number _
  · rw [List.mem_singleton.1 hx]
    rfl

/-- The program is assembled whatever its length, and the jump leads to the rest of it. -/
theorem exists_words_longJump (n : Nat) :
    ∃ words, assemble ((longJump n).map Statement.text) = .ok words ∧
      (∀ u, Denotes (longJump n) (.address (.symbol "END")) u ↔ u = (n + 1 : Nat)) ∧
      words[0]? = some (((n + 1) % 0x8000 : Nat) : Int) := by
  have hlabels : labels (longJump n) = ["END"] := by
    have hzeros : labels (List.replicate n (.compute { comp := .zero })) = [] :=
      List.filterMap_eq_nil_iff.2 fun x hx => by rw [List.eq_of_mem_replicate hx]; rfl
    rw [longJump, labels_append, labels_address, hzeros]
    rfl
  have hnodup : (labels (longJump n)).Nodup := by
    rw [hlabels]
    decide
  have hnew : ∀ name ∈ labels (longJump n), MemoryMap.predefined? name = none := by
    rw [hlabels]
    decide
  have hsplit : longJump n = (.address (.symbol "END") ::
      List.replicate n (.compute { comp := .zero })) ++ .label "END" :: [] := rfl
  have hcount : wordCount (.address (.symbol "END") ::
      List.replicate n (.compute { comp := .zero })) = n + 1 := by
    rw [wordCount_address, wordCount, List.countP_replicate]
    rfl
  obtain ⟨words, hwords⟩ := exists_assembleStatements hnodup hnew
  have hplace : (instructions (longJump n))[0]? = some (.address (.symbol "END")) := rfl
  have haddress : symbolAddress (longJump n) "END" = n + 1 := by
    rw [symbolAddress_of_label hwords hsplit, hcount]
  refine ⟨words, by rw [assemble, readStatements_longJump]; exact hwords, fun u => ?_, ?_⟩
  · rw [denotes_iff hwords hplace, haddress]
  · rw [getElem?_words_symbol hwords hplace, haddress]

/-- A label behind `0x8000` instructions gets the address zero, while a number of that size is an
error at its line. -/
theorem longJump_leads_back :
    (∃ words, assemble ((longJump 0x7FFF).map Statement.text) = .ok words ∧
      Denotes (longJump 0x7FFF) (.address (.symbol "END")) 0x8000 ∧ words[0]? = some 0) ∧
    assemble ["@32768"] = .error (.line (.literal "32768") 1) := by
  constructor
  · obtain ⟨words, hwords, hdenotes, hfirst⟩ := exists_words_longJump 0x7FFF
    exact ⟨words, hwords, (hdenotes 0x8000).2 rfl, hfirst⟩
  · rfl

end HackToolchain.Machine
