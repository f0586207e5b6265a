import HackToolchain.Proofs.Machine.Assembled

/-!
# The words of a program

What the assembler makes of each instruction, without mention of its passes.  `Denotes` has a clause
for each kind of instruction: a computation is encoded, a number stands for itself, and a symbol for
its predefined address, for the number of instructions before the label of its name, or for the cell
that its place among the remaining symbols gives it.

* `readStatements_isReadable`: the numbers in a program that has been read fit an instruction;
* `assemble_denotes`: a program that is read, whose labels are new and whose addresses fit an
  instruction, is assembled, each instruction into the one word that it denotes.
-/

namespace HackToolchain.Asm

open Machine Text

/-! ### Statements that have been read -/

/-- A number that has been read fits an instruction. -/
theorem Address.literal_of_read {number : Nat} {cs : List Char} {n : Int}
    (h : Address.read number cs = .ok (.literal n)) : 0 ≤ n ∧ n ≤ MemoryMap.maxAddress := by
  unfold Address.read at h
  dsimp only at h
  split at h
  · rename_i hdigits
    split at h
    · cases h
    · rename_i value hvalue
      split at h
      · cases h
      · rename_i hle
        injection h with h
        injection h with h
        subst h
        rw [Bool.and_eq_true] at hdigits
        refine ⟨readDecimal_nonneg ?_ hvalue, Int.not_lt.1 hle⟩
        rw [String.toList_ofList]
        exact hdigits.2
  · split at h
    · cases h
    · cases h

theorem isSymbol_of_readLabel {number : Nat} {cs : List Char} {name : String}
    (h : readLabel number cs = .ok name) : isSymbol name.toList = true := by
  unfold readLabel at h
  dsimp only at h
  split at h
  · rename_i hsymbol
    injection h with h
    rw [Bool.and_eq_true] at hsymbol
    rw [← h, String.toList_ofList]
    exact hsymbol.2
  · cases h

theorem Statement.isReadable_of_read {number : Nat} {line : String} {x : Statement}
    (h : Statement.read number line = .ok (some x)) : x.IsReadable := by
  unfold Statement.read at h
  split at h
  · cases h
  · obtain ⟨a, hread, heq⟩ := Except.map_eq_ok h
    injection heq with heq
    subst heq
    cases a with
    | literal n => exact Address.literal_of_read hread
    | symbol name => trivial
  · obtain ⟨name, hread, heq⟩ := Except.map_eq_ok h
    injection heq with heq
    subst heq
    exact isSymbol_of_readLabel hread
  · obtain ⟨k, -, heq⟩ := Except.map_eq_ok h
    injection heq with heq
    subst heq
    trivial

/-- The statements of a program have been read from its lines. -/
theorem exists_line_of_readStatements {lines : List String} {program : List Statement}
    (h : readStatements lines = .ok program) {x : Statement} (hx : x ∈ program) :
    ∃ number, ∃ line ∈ lines, Statement.read number line = .ok (some x) := by
  obtain ⟨result, hgo, rfl⟩ := Except.map_eq_ok h
  -- from any place on, the statement has been read before or comes from a line there
  have hread (number : Nat) (done : Array Statement) (rest : List String)
      (hrest : readStatements.go number done rest = .ok result) :
      x ∈ done.toList ∨ ∃ number, ∃ line ∈ rest, Statement.read number line = .ok (some x) := by
    induction rest generalizing number done with
    | nil =>
      injection hrest with hrest
      rw [hrest]
      exact .inl hx
    | cons line rest ih =>
      unfold readStatements.go at hrest
      split at hrest
      · cases hrest
      · exact (ih _ _ hrest).imp_right fun ⟨n, other, hmem, hother⟩ =>
          ⟨n, other, List.mem_cons_of_mem _ hmem, hother⟩
      · rename_i y hy
        rcases ih _ _ hrest with hdone | ⟨n, other, hmem, hother⟩
        · rw [Array.toList_push, List.mem_append, List.mem_singleton] at hdone
          rcases hdone with hdone | rfl
          · exact .inl hdone
          · exact .inr ⟨number, line, List.mem_cons_self, hy⟩
        · exact .inr ⟨n, other, List.mem_cons_of_mem _ hmem, hother⟩
  exact (hread 1 #[] lines hgo).resolve_left List.not_mem_nil

/-- The numbers in a program that has been read fit an instruction, and its labels are symbols. -/
theorem readStatements_isReadable {lines : List String} {program : List Statement}
    (h : readStatements lines = .ok program) : ∀ x ∈ program, x.IsReadable := by
  intro x hx
  obtain ⟨number, line, -, hread⟩ := exists_line_of_readStatements h hx
  exact Statement.isReadable_of_read hread

/-- Each line of a program that has been read is one that can be read. -/
theorem exists_read_of_mem {lines : List String} {program : List Statement}
    (h : readStatements lines = .ok program) {line : String} (hline : line ∈ lines) :
    ∃ number x, Statement.read number line = .ok x := by
  obtain ⟨result, hgo, -⟩ := Except.map_eq_ok h
  clear h
  -- the lines may follow others that have been read
  generalize 1 = number, #[] = done at hgo
  induction lines generalizing number done with
  | nil => cases hline
  | cons first lines ih =>
    unfold readStatements.go at hgo
    rcases List.mem_cons.1 hline with rfl | hline
    · split at hgo
      · cases hgo
      · exact ⟨_, _, ‹_›⟩
      · exact ⟨_, _, ‹_›⟩
    · split at hgo
      · cases hgo
      · exact ih hline _ _ hgo
      · exact ih hline _ _ hgo

/-! ### What instructions denote -/

/-- The word that an instruction of a program stands for. -/
inductive Denotes (program : List Statement) : Statement → Int → Prop
  /-- A computation stands for its code. -/
  | compute (k : Compute) : Denotes program (.compute k) k.encode
  /-- A number stands for itself. -/
  | literal (n : Int) : Denotes program (.address (.literal n)) n
  /-- A predefined symbol stands for its address. -/
  | predefined {name : String} {address : Nat}
    (h : MemoryMap.predefined? name = some address) :
    Denotes program (.address (.symbol name)) address
  /-- The name of a label stands for the number of instructions before the label. -/
  | label {name : String} {front back : List Statement}
    (h : program = front ++ .label name :: back) :
    Denotes program (.address (.symbol name)) (wordCount front)
  /-- The remaining symbols stand for cells in the order of their first use. -/
  | variable {name : String} {k : Nat} (h : (variableNames program)[k]? = some name) :
    Denotes program (.address (.symbol name)) (MemoryMap.variableBase + k : Nat)

/-- A label with an address stands somewhere. -/
theorem exists_of_labelAddress? {name : String} {pc n : Nat} {code : List Statement}
    (h : labelAddress? name pc code = some n) :
    ∃ front back, code = front ++ .label name :: back ∧ n = pc + wordCount front := by
  induction code generalizing pc with
  | nil => cases h
  | cons x code ih =>
    cases x with
    | label other =>
      rw [labelAddress?] at h
      split at h
      · rename_i heq
        injection h with h
        exact ⟨[], code, by rw [heq]; rfl, h.symm⟩
      · obtain ⟨front, back, rfl, rfl⟩ := ih h
        exact ⟨.label other :: front, back, rfl, by rw [wordCount_label]⟩
    | address x =>
      obtain ⟨front, back, rfl, rfl⟩ := ih h
      exact ⟨.address x :: front, back, rfl, by rw [wordCount_address]; omega⟩
    | compute k =>
      obtain ⟨front, back, rfl, rfl⟩ := ih h
      exact ⟨.compute k :: front, back, rfl, by rw [wordCount_compute]; omega⟩

section Denoted

variable {program : List Statement}

/-- A symbol in use denotes its address. -/
theorem denotes_symbolAddress {name : String} (huse : name ∈ symbols program) :
    Denotes program (.address (.symbol name)) (symbolAddress program name) := by
  unfold symbolAddress
  cases hknown : knownAddress? program name with
  | some n =>
    rcases Option.or_eq_some_iff.1 hknown with hpredefined | ⟨-, hlabel⟩
    · exact .predefined hpredefined
    · obtain ⟨front, back, hsplit, rfl⟩ := exists_of_labelAddress? hlabel
      rw [Option.getD_some, Nat.zero_add]
      exact .label hsplit
  | none =>
    -- neither predefined nor a label, so a variable, since it is in use
    have hmem := mem_variableNames.2 ⟨huse, knownAddress?_eq_none.1 hknown⟩
    exact .variable (List.getElem?_idxOf hmem)

/-- A symbol denotes nothing but its address. -/
theorem Denotes.eq_symbolAddress (hnodup : (labels program).Nodup)
    (hnew : ∀ name ∈ labels program, MemoryMap.predefined? name = none) {name : String} {v : Int}
    (h : Denotes program (.address (.symbol name)) v) : v = symbolAddress program name := by
  unfold symbolAddress
  cases h with
  | predefined hpredefined => rw [knownAddress?, hpredefined, Option.some_or, Option.getD_some]
  | label hsplit => rw [knownAddress?_of_label hnodup hnew hsplit, Option.getD_some]
  | «variable» hplace =>
    obtain ⟨hk, rfl⟩ := List.getElem?_eq_some_iff.1 hplace
    obtain ⟨-, hknown⟩ := mem_variableNames.1 (List.getElem_mem hk)
    have hdistinct : (variableNames program).Nodup := nodup_eraseDups _
    rw [knownAddress?_eq_none.2 hknown, Option.getD_none, hdistinct.idxOf_getElem]

end Denoted

/-! ### The words -/

theorem forall₂_filterMap {α β : Type} {f : α → Option β} {p : α → Bool} {R : α → β → Prop}
    (hp : ∀ x, (f x).isSome = p x) {xs : List α} (h : ∀ x ∈ xs, ∀ y, f x = some y → R x y) :
    List.Forall₂ R (xs.filter p) (xs.filterMap f) := by
  induction xs with
  | nil => exact .nil
  | cons x xs ih =>
    have hrest := ih fun y hy => h y (List.mem_cons_of_mem _ hy)
    cases hx : f x with
    | none =>
      rw [List.filterMap_cons_none hx,
        List.filter_cons_of_neg (by rw [← hp, hx]; exact Bool.false_ne_true)]
      exact hrest
    | some y =>
      rw [List.filterMap_cons_some hx, List.filter_cons_of_pos (by rw [← hp, hx]; rfl)]
      exact .cons (h x List.mem_cons_self y hx) hrest

/-- A program that is read is assembled, if no label is declared twice or predefined and all
addresses fit an instruction.  There is a word for each instruction, in order, and it is the one
that the instruction denotes. -/
theorem assemble_denotes {lines : List String} {program : List Statement}
    (hread : readStatements lines = .ok program) (hnodup : (labels program).Nodup)
    (hnew : ∀ name ∈ labels program, MemoryMap.predefined? name = none)
    (hsize : wordCount program ≤ 32767) (hvariables : (variableNames program).length ≤ 32752) :
    ∃ words, assemble lines = .ok words ∧
      List.Forall₂ (fun x w => ∀ v, Denotes program x v ↔ v = w)
        (program.filter Statement.isInstruction) words.toList := by
  obtain ⟨words, hwords⟩ := exists_assembleStatements hnodup hnew
  refine ⟨words, by rw [assemble, hread]; exact hwords, ?_⟩
  rw [(assembleStatements_eq_ok hwords).1]
  refine forall₂_filterMap (isSome_word? _) fun x hx w hw v => ?_
  cases x with
  | label name => cases hw
  | compute k =>
    injection hw with hw
    subst hw
    exact ⟨fun h => by cases h; rfl, fun h => h ▸ .compute k⟩
  | address a =>
    cases a with
    | literal n =>
      injection hw with hw
      obtain ⟨hn, hle⟩ := readStatements_isReadable hread _ hx
      rw [addressWord_of_lt hn hle] at hw
      subst hw
      exact ⟨fun h => by cases h; rfl, by rintro rfl; exact .literal v⟩
    | symbol name =>
      injection hw with hw
      subst hw
      -- all addresses fit an instruction, so that none is cut off
      have huse : name ∈ symbols program := List.mem_filterMap.2 ⟨_, hx, rfl⟩
      have hbase : MemoryMap.variableBase = 16 := rfl
      have hlt := symbolAddress_lt huse (by omega) (by omega)
      rw [addressWord_of_lt (Int.natCast_nonneg _) (Int.ofNat_le.2 (Nat.le_of_lt_succ hlt))]
      exact ⟨Denotes.eq_symbolAddress hnodup hnew, fun h => h ▸ denotes_symbolAddress huse⟩

/-- A program with a symbol of each kind. -/
def branchOut : List String := ["@END", "D;JEQ", "@sum", "@7", "@SP", "(END)"]

theorem assemble_denotes_branchOut :
    ∃ program, readStatements branchOut = .ok program ∧
      ∃ words, assemble branchOut = .ok words ∧
        List.Forall₂ (fun x w => ∀ v, Denotes program x v ↔ v = w)
          (program.filter Statement.isInstruction) words.toList := by
  have hread : readStatements branchOut = .ok [.address (.symbol "END"),
      .compute { comp := .d, jump := .eq }, .address (.symbol "sum"), .address (.literal 7),
      .address (.symbol "SP"), .label "END"] := by
    rfl
  exact ⟨_, hread, assemble_denotes hread (by decide) (by decide) (by decide) (by decide)⟩

example : assemble branchOut = .ok #[5, 0xE302, 16, 7, 0] := by rfl

end HackToolchain.Asm
