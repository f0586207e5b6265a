import HackToolchain.Asm.Image
import HackToolchain.Proofs.Machine.Assembled
import HackToolchain.Proofs.Text.Lines

/-!
# Reading program texts back

The two texts that hold a machine program, and what they are read as.

* `readBinaryImage_binaryImage`: a binary image is read as the last sixteen bits of each word;
* `assemble_isEncoded`: the words of an assembled program are addresses and computations, and so
  have no more bits;
* `readProgram_binaryImage`, `readProgram_unlines`: so both texts are read as the words of the
  program, if no line of the code is broken.
-/

namespace HackToolchain.Asm

open Machine Text

/-! ### Binary digits -/

theorem mem_binaryDigits {w : Int} {c : Char} (h : c ∈ binaryDigits w) : c = '0' ∨ c = '1' := by
  obtain ⟨i, -, rfl⟩ := List.mem_map.1 h
  split
  · exact .inr rfl
  · exact .inl rfl

theorem length_binaryDigits (w : Int) : (binaryDigits w).length = 16 := by
  rw [binaryDigits, List.length_map, List.length_range]

theorem isBinaryWord_binaryDigits (w : Int) : isBinaryWord (binaryDigits w) = true := by
  rw [isBinaryWord, length_binaryDigits, Bool.and_eq_true, List.all_eq_true]
  refine ⟨rfl, fun c hc => ?_⟩
  rcases mem_binaryDigits hc with rfl | rfl <;> rfl

theorem isBlank_of_mem_binaryDigits {w : Int} {c : Char} (h : c ∈ binaryDigits w) :
    isBlank c = false := by
  rcases mem_binaryDigits h with rfl | rfl <;> decide

/-- The first digits of a number of sixteen bits. -/
theorem binaryValue_prefix {n k : Nat} (hn : n < 0x10000) (hk : k ≤ 16) :
    binaryValue ((List.range k).map fun i => if n.testBit (15 - i) then '1' else '0') =
      n >>> (16 - k) := by
  induction k with
  | zero =>
    rw [Nat.shiftRight_eq_div_pow, Nat.div_eq_of_lt hn]
    rfl
  | succ k ih =>
    have hhalf : n >>> (16 - k) = n >>> (15 - k) / 2 := by
      rw [← Nat.shiftRight_succ]
      congr 1
      omega
    have hbit : (if (if n.testBit (15 - k) then '1' else '0') = '1' then 1 else 0) =
        n >>> (15 - k) % 2 := by
      rw [Nat.testBit_eq_decide_div_mod_eq, ← Nat.shiftRight_eq_div_pow]
      rcases Nat.mod_two_eq_zero_or_one (n >>> (15 - k)) with h | h <;> simp [h]
    have hnext : 16 - (k + 1) = 15 - k := by omega
    -- the next digit doubles the value of those before it
    rw [List.range_succ, List.map_append, binaryValue, List.foldl_append]
    change 2 * binaryValue _ +
      (if (if n.testBit (15 - k) then '1' else '0') = '1' then 1 else 0) = _
    rw [ih (by omega), hhalf, hbit, hnext]
    omega

theorem binaryValue_binaryDigits (w : Int) : binaryValue (binaryDigits w) = Word.toNat w := by
  rw [binaryDigits, binaryValue_prefix (Word.toNat_lt w) (Nat.le_refl 16)]
  rfl

/-! ### Binary images -/

theorem toList_binaryImage (words : List Int) :
    (binaryImage words).toList = (words.map binaryDigits).flatMap (· ++ ['\n']) := by
  rw [binaryImage, String.toList_join, List.flatMap_map, List.flatMap_map]
  exact List.flatMap_congr fun _ _ => String.toList_ofList

theorem isUnbroken_binaryDigits (words : List Int) :
    ∀ line ∈ words.map binaryDigits, IsUnbroken line := by
  intro line hline
  obtain ⟨w, -, rfl⟩ := List.mem_map.1 hline
  exact fun c hc => isLineBreak_of_not_blank (isBlank_of_mem_binaryDigits hc)

theorem readBinaryImage_go (words : List Int) (number : Nat) (done : Array Int) :
    readBinaryImage.go number done (words.map binaryDigits) =
      .ok (done ++ words.map fun w => (Word.toNat w : Int)) := by
  induction words generalizing number done with
  | nil => simp [readBinaryImage.go]
  | cons w words ih =>
    have hstrip : strip (binaryDigits w) = binaryDigits w :=
      strip_eq_self (fun c hc => isBlank_of_mem_binaryDigits (List.mem_of_mem_head? hc))
        fun c hc => isBlank_of_mem_binaryDigits (List.mem_of_mem_getLast? hc)
    have hne : (binaryDigits w).isEmpty = false := by
      rw [List.isEmpty_eq_false_iff, ← List.length_pos_iff, length_binaryDigits]
      decide
    rw [List.map_cons, readBinaryImage.go]
    simp only [hstrip, hne, isBinaryWord_binaryDigits, ih, binaryValue_binaryDigits, if_true,
      Bool.false_eq_true, if_false]
    simp

/-- A binary image is read as the last sixteen bits of each word. -/
theorem readBinaryImage_binaryImage (words : List Int) :
    readBinaryImage (binaryImage words) =
      .ok (words.map fun w => (Word.toNat w : Int)).toArray := by
  rw [readBinaryImage, toList_binaryImage, splitLines_flatMap (isUnbroken_binaryDigits words),
    readBinaryImage_go]
  simp

/-! ### Words -/

theorem Compute.encode_lt (k : Compute) : k.encode < 0x10000 := by
  have := k.comp.code_lt
  have := k.dest.bits_lt
  have := k.jump.bits_lt
  rw [Compute.encode]
  omega

/-- The words that the assembler makes: addresses, and the codes of computations. -/
inductive IsEncoded : Int → Prop
  /-- An address that fits an instruction. -/
  | address {n : Nat} (h : n ≤ MemoryMap.maxAddress) : IsEncoded n
  /-- The code of a computation. -/
  | compute (k : Compute) : IsEncoded k.encode

theorem IsEncoded.bounds {w : Int} (h : IsEncoded w) : 0 ≤ w ∧ w < 0x10000 := by
  cases h with
  | address h =>
    have : MemoryMap.maxAddress = 0x7FFF := rfl
    omega
  | compute k =>
    have := k.encode_lt
    omega

/-- An address is cut off to fifteen bits, whatever it is. -/
theorem isEncoded_addressWord (n : Int) : IsEncoded (addressWord n) := by
  obtain ⟨m, hm⟩ := Int.eq_ofNat_of_zero_le (addressWord_nonneg n)
  have hlt := addressWord_lt n
  rw [hm] at hlt ⊢
  exact .address (Nat.le_of_lt_succ (Int.ofNat_lt.1 hlt))

theorem Statement.isEncoded_of_word? {address : String → Nat} {x : Statement} {w : Int}
    (h : x.word? address = some w) : IsEncoded w := by
  cases x with
  | label name => cases h
  | address a =>
    cases a with
    | literal n =>
      injection h with h
      exact h ▸ isEncoded_addressWord n
    | symbol name =>
      injection h with h
      exact h ▸ isEncoded_addressWord _
  | compute k =>
    injection h with h
    exact h ▸ .compute k

theorem assemble_isEncoded {lines : List String} {words : Array Int}
    (h : assemble lines = .ok words) : ∀ w ∈ words, IsEncoded w := by
  intro w hw
  obtain ⟨program, -, hwords⟩ := exists_program_of_assemble h
  rw [← Array.mem_toList_iff, (assembleStatements_eq_ok hwords).1] at hw
  obtain ⟨x, -, hx⟩ := List.mem_filterMap.1 hw
  exact Statement.isEncoded_of_word? hx

/-- The words of an assembled program have sixteen bits. -/
theorem assemble_bounds {lines : List String} {words : Array Int}
    (h : assemble lines = .ok words) : ∀ w ∈ words, 0 ≤ w ∧ w < 0x10000 :=
  fun w hw => (assemble_isEncoded h w hw).bounds

/-! ### Program texts -/

/-- The binary image of a program is read as its words. -/
theorem readProgram_binaryImage {fileName : String} {words : Array Int}
    (hname : fileName.endsWith ".asm" = false) (hwords : ∀ w ∈ words, 0 ≤ w ∧ w < 0x10000) :
    readProgram fileName (binaryImage words.toList) = .ok words := by
  have htext : unifyNewlines (binaryImage words.toList).toList =
      (binaryImage words.toList).toList := by
    rw [toList_binaryImage, unifyNewlines_flatMap (isUnbroken_binaryDigits _)]
  have hvalues : words.toList.map (fun w => (Word.toNat w : Int)) = words.toList := by
    have hword (w : Int) (hw : w ∈ words.toList) : (Word.toNat w : Int) = id w := by
      have := hwords w (Array.mem_toList_iff.1 hw)
      rw [Word.toNat, id]
      omega
    rw [List.map_congr_left hword, List.map_id]
  rw [readProgram, hname, if_neg Bool.false_ne_true, htext, String.ofList_toList,
    readBinaryImage_binaryImage, hvalues]

/-- Lines of code that are joined by line feeds are assembled as they are. -/
theorem readProgram_unlines {fileName : String} {lines : List String}
    (hname : fileName.endsWith ".asm" = true) (hlines : ∀ line ∈ lines, IsUnbroken line.toList) :
    readProgram fileName (unlines lines) = assemble lines := by
  rw [readProgram, hname, if_pos rfl, lines_unlines hlines]
  split
  · rename_i hnil
    rw [hnil]
    rfl
  · rfl

end HackToolchain.Asm
