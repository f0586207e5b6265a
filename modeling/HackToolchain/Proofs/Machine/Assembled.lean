import HackToolchain.Proofs.Asm.Reading
import HackToolchain.Proofs.Asm.Resolution
import HackToolchain.Proofs.Machine.Loading

/-!
# Assembled code is loaded

A program that has been printed, read and assembled stands in the program memory, each symbol at the
address that `Layout.ofCode` gives it.

* `Loaded.of_filterMap`: statements are loaded where their words are;
* `loaded_of_assembleStatements`: so the whole program is loaded from address zero on, if all
  addresses fit an instruction.
-/

namespace HackToolchain.Machine

open Asm

/-! ### Addresses as they are read -/

theorem labels_map_reread (code : List Statement) :
    labels (code.map Statement.reread) = labels code := by
  rw [labels, List.filterMap_map, labels]
  congr 1
  funext x
  cases x <;> rfl

theorem labelAddress?_map_reread (name : String) (pc : Nat) (code : List Statement) :
    labelAddress? name pc (code.map Statement.reread) = labelAddress? name pc code := by
  induction code generalizing pc with
  | nil => rfl
  | cons x code ih =>
    cases x with
    | label other => simp only [List.map_cons, Statement.reread, labelAddress?, ih]
    | address x => simp only [List.map_cons, Statement.reread, labelAddress?, ih]
    | compute k => simp only [List.map_cons, Statement.reread, labelAddress?, ih]

/-- The addresses of the symbols of a program whose text is assembled.  A symbol of digits stands
for a number. -/
def Layout.ofCode (code : List Statement) : Layout where
  address name :=
    match digitsNumber? name with
    | some n => (addressWord n).toNat
    | none => symbolAddress (code.map Statement.reread) name
  address_symbol cell := by
    have hdigits : digitsNumber? cell.symbol = none := by
      cases cell <;> rfl
    simp only [hdigits, symbolAddress, knownAddress?, MemoryMap.predefined?_symbol, Option.some_or,
      Option.getD_some]

theorem addressWord_of_lt {n : Int} (h0 : 0 ≤ n) (h : n ≤ MemoryMap.maxAddress) :
    addressWord n = n :=
  Int.emod_eq_of_lt h0 (Int.lt_add_one_of_le h)

theorem addressWord_nonneg (n : Int) : 0 ≤ addressWord n :=
  Int.emod_nonneg _ (by decide)

theorem addressWord_lt (n : Int) : addressWord n < 0x8000 :=
  Int.emod_lt_of_pos n (by decide)

/-! ### Labels and words -/

theorem labelAddress?_append_label {name : String} {pc : Nat} {xs ys : List Statement}
    (h : name ∉ labels xs) :
    labelAddress? name pc (xs ++ .label name :: ys) = some (pc + wordCount xs) := by
  induction xs generalizing pc with
  | nil => exact if_pos rfl
  | cons x xs ih =>
    cases x with
    | label other =>
      rw [labels_label, List.mem_cons, not_or] at h
      rw [List.cons_append, labelAddress?, if_neg (Ne.symm h.1), ih h.2, wordCount_label]
    | address x =>
      rw [List.cons_append, labelAddress?, ih h, wordCount_address]
      exact congrArg some (by omega)
    | compute k =>
      rw [List.cons_append, labelAddress?, ih h, wordCount_compute]
      exact congrArg some (by omega)

/-- A label of a program in which no label is declared twice has the address where it stands. -/
theorem knownAddress?_of_label {program front back : List Statement} {name : String}
    (hnodup : (labels program).Nodup)
    (hnew : ∀ name ∈ labels program, MemoryMap.predefined? name = none)
    (h : program = front ++ .label name :: back) :
    knownAddress? program name = some (wordCount front) := by
  subst h
  rw [labels_append, labels_label] at hnodup hnew
  have hfirst : name ∉ labels front := fun hmem =>
    (List.nodup_append.1 hnodup).2.2 name hmem name List.mem_cons_self rfl
  rw [knownAddress?, hnew name (by simp), Option.none_or, labelAddress?_append_label hfirst,
    Nat.zero_add]

theorem labelAddress?_le {name : String} {pc n : Nat} {code : List Statement}
    (h : labelAddress? name pc code = some n) : n ≤ pc + wordCount code := by
  induction code generalizing pc with
  | nil => cases h
  | cons x code ih =>
    cases x with
    | label other =>
      rw [labelAddress?] at h
      rw [wordCount_label]
      split at h
      · injection h with h
        omega
      · exact ih h
    | address x =>
      have := ih h
      rw [wordCount_address]
      omega
    | compute k =>
      have := ih h
      rw [wordCount_compute]
      omega

theorem length_filterMap_word? {word? : Statement → Option Int}
    (hword : ∀ x, (word? x).isSome = x.isInstruction) (code : List Statement) :
    (code.filterMap word?).length = wordCount code := by
  rw [List.length_filterMap_eq_countP, wordCount]
  congr 1
  funext x
  exact hword x

theorem isSome_word? (address : String → Nat) (x : Statement) :
    (x.word? address).isSome = x.isInstruction := by
  cases x with
  | address x => cases x <;> rfl
  | _ => rfl

/-! ### Loading -/

/-- Statements are loaded from an address on if their words stand there and their labels have the
addresses where they stand. -/
theorem Loaded.of_filterMap {c : Computer} {σ : Layout} (word? : Statement → Option Int)
    (front : List Int) {code : List Statement}
    (hlabel : ∀ xs name ys, code = xs ++ .label name :: ys →
      σ.address name = front.length + wordCount xs)
    (hnone : ∀ name, word? (.label name) = none)
    (haddress : ∀ x, .address x ∈ code →
      ∃ n : Nat, σ.resolve x = n ∧ n < 0x8000 ∧ word? (.address x) = some (n : Int))
    (hcompute : ∀ k, word? (.compute k) = some (k.encode : Int))
    (hrom : front ++ code.filterMap word? <+: c.rom.toList) : Loaded c σ front.length code := by
  induction code generalizing front with
  | nil => trivial
  | cons x code ih =>
    have hlater {y : Statement} (hmem : y ∈ code) : y ∈ x :: code := List.mem_cons_of_mem _ hmem
    -- the first word of the rest, if there is one
    have hword {word : Int} (hx : word? x = some word) :
        c.rom[front.length]? = some word ∧
          (front ++ [word]) ++ code.filterMap word? <+: c.rom.toList := by
      rw [List.filterMap_cons_some hx] at hrom
      obtain ⟨back, hback⟩ := hrom
      refine ⟨?_, back, by rw [← hback]; simp⟩
      rw [← Array.getElem?_toList, ← hback, List.append_assoc,
        List.getElem?_append_right (Nat.le_refl _), Nat.sub_self]
      rfl
    have hfront (word : Int) : (front ++ [word]).length = front.length + 1 :=
      List.length_append
    cases x with
    | label name =>
      rw [List.filterMap_cons_none (hnone name)] at hrom
      refine ⟨hlabel [] name code rfl, ih _ (fun xs other ys heq => ?_) ?_ hrom⟩
      · rw [hlabel (.label name :: xs) other ys (by rw [heq]; rfl), wordCount_label]
      · exact fun x hx => haddress x (hlater hx)
    | address x =>
      obtain ⟨n, hn, hlt, hx⟩ := haddress x List.mem_cons_self
      obtain ⟨hget, hrom⟩ := hword hx
      refine ⟨⟨n, hn, hlt, hget⟩, ?_⟩
      rw [← hfront n]
      refine ih _ (fun xs name ys heq => ?_) (fun x hx => haddress x (hlater hx)) hrom
      rw [hlabel (.address x :: xs) name ys (by rw [heq]; rfl), wordCount_address, hfront]
      omega
    | compute k =>
      obtain ⟨hget, hrom⟩ := hword (hcompute k)
      refine ⟨hget, ?_⟩
      rw [← hfront k.encode]
      refine ih _ (fun xs name ys heq => ?_) (fun x hx => haddress x (hlater hx)) hrom
      rw [hlabel (.compute k :: xs) name ys (by rw [heq]; rfl), wordCount_compute, hfront]
      omega

/-- The addresses of predefined symbols fit an instruction. -/
theorem predefined?_lt {name : String} {n : Nat} (h : MemoryMap.predefined? name = some n) :
    n < 0x8000 := by
  have hall : ∀ entry ∈ MemoryMap.predefined, entry.2 < 0x8000 := by decide
  exact hall (name, n) (mem_predefined h)

theorem wordCount_map_reread (code : List Statement) :
    wordCount (code.map Statement.reread) = wordCount code := by
  rw [wordCount, List.countP_map, wordCount]
  congr 1
  funext x
  cases x <;> rfl

/-- The symbols in use have addresses that fit an instruction, if the program and the variables
do. -/
theorem symbolAddress_lt {code : List Statement} {name : String}
    (huse : name ∈ symbols code)
    (hvariables : MemoryMap.variableBase + (variableNames code).length ≤ 0x8000)
    (hsize : wordCount code < 0x8000) : symbolAddress code name < 0x8000 := by
  unfold symbolAddress
  cases hknown : knownAddress? code name with
  | some n =>
    rcases Option.or_eq_some_iff.1 hknown with hpredefined | ⟨-, hlabel⟩
    · exact predefined?_lt hpredefined
    · have := labelAddress?_le hlabel
      rw [Option.getD_some]
      omega
  | none =>
    have hmem : name ∈ variableNames code := by
      rw [variableNames, List.mem_eraseDups, List.mem_filter, hknown]
      exact ⟨huse, rfl⟩
    have := List.idxOf_lt_length_of_mem hmem
    rw [Option.getD_none]
    omega

/-- There is a word for each instruction. -/
theorem size_of_assembleStatements {code : List Statement} {words : Array Int}
    (h : assembleStatements (code.map Statement.reread) = .ok words) :
    words.size = wordCount code := by
  obtain ⟨hwords, -, -⟩ := assembleStatements_eq_ok h
  rw [← Array.length_toList, hwords, length_filterMap_word? (isSome_word? _),
    wordCount_map_reread]

/-- An address of a program that has been printed and read is assembled into the word that it
resolves to, if that fits an instruction. -/
theorem exists_word_of_address {code : List Statement} {x : Address}
    (hreadable : (Statement.address x).IsReadable)
    (hlt : ∀ name, x = .symbol name → (Layout.ofCode code).address name < 0x8000) :
    ∃ n : Nat, (Layout.ofCode code).resolve x = n ∧ n < 0x8000 ∧
      (Statement.address x).reread.word? (symbolAddress (code.map Statement.reread)) =
        some (n : Int) := by
  cases x with
  | literal n =>
    obtain ⟨hn0, hn⟩ := hreadable
    refine ⟨n.toNat, (Int.toNat_of_nonneg hn0).symm, ?_, ?_⟩
    · have : (MemoryMap.maxAddress : Int) = 0x7FFF := rfl
      omega
    · rw [Int.toNat_of_nonneg hn0]
      exact congrArg some (addressWord_of_lt hn0 hn)
  | symbol name =>
    have hsymbol := hlt name rfl
    refine ⟨(Layout.ofCode code).address name, rfl, hsymbol, ?_⟩
    cases hdigits : digitsNumber? name with
    | some n =>
      simp only [Statement.reread, Address.reread, Layout.ofCode, hdigits, Statement.word?,
        Int.toNat_of_nonneg (addressWord_nonneg n)]
    | none =>
      simp only [Layout.ofCode, hdigits] at hsymbol
      simp only [Statement.reread, Address.reread, Layout.ofCode, hdigits, Statement.word?]
      exact congrArg some (addressWord_of_lt (Int.natCast_nonneg _)
        (Int.ofNat_le.2 (Nat.le_of_lt_succ hsymbol)))

/-- A label of a program that has been assembled has the address where it stands. -/
theorem Layout.address_of_label {code front back : List Statement} {name : String}
    {words : Array Int} (hreadable : ∀ x ∈ code, x.IsReadable)
    (hassemble : assembleStatements (code.map Statement.reread) = .ok words)
    (hsplit : code = front ++ .label name :: back) :
    (Layout.ofCode code).address name = wordCount front := by
  obtain ⟨-, hnodup, hnew⟩ := assembleStatements_eq_ok hassemble
  have hdigits : digitsNumber? name = none := by
    have hsymbol := hreadable (.label name) (by rw [hsplit]; simp)
    rw [digitsNumber?, isDigits_of_isSymbol hsymbol]
    rfl
  have hmap : code.map Statement.reread =
      front.map Statement.reread ++ .label name :: back.map Statement.reread := by
    rw [hsplit, List.map_append]
    rfl
  simp only [Layout.ofCode, hdigits, symbolAddress, knownAddress?_of_label hnodup hnew hmap,
    Option.getD_some, wordCount_map_reread]

/-- A program that has been assembled is loaded, if its size and the number of its variables are
such that all addresses fit an instruction. -/
theorem loaded_of_assembleStatements {c : Computer} {code : List Statement}
    (hreadable : ∀ x ∈ code, x.IsReadable)
    (hassemble : assembleStatements (code.map Statement.reread) = .ok c.rom)
    (hsize : c.rom.size < 0x8000)
    (hvariables : MemoryMap.variableBase +
      (variableNames (code.map Statement.reread)).length ≤ 0x8000) :
    Loaded c (.ofCode code) 0 code := by
  have hrom := size_of_assembleStatements hassemble
  obtain ⟨hwords, -, -⟩ := assembleStatements_eq_ok hassemble
  rw [List.filterMap_map] at hwords
  refine Loaded.of_filterMap (Statement.word? _ ∘ Statement.reread) []
    (fun xs name ys heq => ?_) (fun _ => rfl) (fun x hx => ?_) (fun _ => rfl)
    (by rw [hwords]; exact List.prefix_rfl)
  · exact (Layout.address_of_label hreadable hassemble heq).trans (Nat.zero_add _).symm
  · refine exists_word_of_address (hreadable _ hx) fun name heq => ?_
    subst heq
    cases hdigits : digitsNumber? name with
    | some n =>
      -- a name of digits is read back as a number
      have h0 := addressWord_nonneg n
      have hlt := addressWord_lt n
      simp only [Layout.ofCode, hdigits]
      omega
    | none =>
      -- any other name is still a symbol when it is read back
      have hread : (Statement.address (.symbol name)).reread = .address (.symbol name) := by
        simp only [Statement.reread, Address.reread, hdigits]
      have huse : name ∈ symbols (code.map Statement.reread) :=
        List.mem_filterMap.2 ⟨_, List.mem_map_of_mem hx, by rw [hread]; rfl⟩
      simp only [Layout.ofCode, hdigits]
      exact symbolAddress_lt huse hvariables (by
        rw [wordCount_map_reread]
        omega)

end HackToolchain.Machine
