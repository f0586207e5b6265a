import HackToolchain.Proofs.Asm.Printing
import Mathlib.Data.Set.Function
import Mathlib.Logic.Equiv.Basic

/-!
# Other names for symbols

The words of a program say nothing about the names of its symbols.  If different names stay
different and the predefined symbols keep theirs, then the program with the new names is assembled
into the same words, or is rejected because of the same label.

The two passes over the old and over the new program go side by side.  The tables hold different
names, but `SymbolTable.Follows` is kept by every step: the new table has under the new name of a
symbol what the old one has under the old name.

* `bindLabels_rename`: the first pass, which ends alike for both programs;
* `emitWords_rename`: the second pass, which allocates the same cells;
* `assembleStatements_rename`: both passes, for statements that have been read.
-/

namespace HackToolchain.Asm

/-! ### Names -/

/-- The statement with other names for its symbols. -/
def Statement.rename (r : String → String) : Statement → Statement
  | .address (.literal value) => .address (.literal value)
  | .address (.symbol name) => .address (.symbol (r name))
  | .label name => .label (r name)
  | .compute value => .compute value

/-- The error with the new name of the label at fault. -/
def Error.rename (r : String → String) : Error → Error
  | .duplicateLabel name => .duplicateLabel (r name)
  | .line fault number => .line fault number
  | .numeral error => .numeral error

/-- The names that may stand in a program. -/
def symbolNames : Set String :=
  {name | isSymbol name.toList = true}

/-- The names in a statement are among the given ones. -/
def Statement.NamesIn (names : Set String) : Statement → Prop
  | .address (.symbol name) | .label name => name ∈ names
  | .address (.literal _) | .compute _ => True

theorem Statement.namesIn_of_isPrintable {x : Statement} (h : x.IsPrintable) :
    x.NamesIn symbolNames := by
  cases x with
  | address a =>
    cases a with
    | literal n => trivial
    | symbol name => exact h.1
  | label name => exact h
  | compute k => trivial

theorem mem_symbolNames_of_predefined {name : String}
    (h : (MemoryMap.predefined? name).isSome = true) : name ∈ symbolNames := by
  have hsymbols : ∀ entry ∈ MemoryMap.predefined, isSymbol entry.1.toList = true := by decide
  obtain ⟨address, haddress⟩ := Option.isSome_iff_exists.1 h
  exact hsymbols (name, address) (mem_predefined haddress)

/-! ### Tables side by side -/

section

variable {r : String → String} {names : Set String}

/-- The second table has under the new names what the first one has under the old ones. -/
def SymbolTable.Follows (r : String → String) (names : Set String) (table table' : SymbolTable) :
    Prop :=
  ∀ name ∈ names, table'[r name]? = table[name]?

theorem SymbolTable.Follows.insert {table table' : SymbolTable}
    (h : SymbolTable.Follows r names table table') (hr : Set.InjOn r names) {name : String}
    (hname : name ∈ names) (address : Nat) :
    SymbolTable.Follows r names (table.insert name address) (table'.insert (r name) address) := by
  intro other hother
  rw [SymbolTable.getElem?_insert, SymbolTable.getElem?_insert, h other hother]
  simp only [hr.eq_iff hname hother]

theorem SymbolTable.Follows.contains_eq {table table' : SymbolTable}
    (h : SymbolTable.Follows r names table table') {name : String} (hname : name ∈ names) :
    table'.contains (r name) = table.contains name := by
  rw [Std.TreeMap.contains_eq_isSome_getElem?, Std.TreeMap.contains_eq_isSome_getElem?,
    h name hname]

/-- If the predefined symbols keep their names, no other symbol gets the name of one. -/
theorem SymbolTable.follows_initial (hr : Set.InjOn r symbolNames)
    (hfix : ∀ name, (MemoryMap.predefined? name).isSome = true → r name = name) :
    SymbolTable.Follows r symbolNames SymbolTable.initial SymbolTable.initial := by
  intro name hname
  rw [SymbolTable.getElem?_initial, SymbolTable.getElem?_initial]
  by_cases hnew : (MemoryMap.predefined? (r name)).isSome = true
  · rw [hr (mem_symbolNames_of_predefined hnew) hname (hfix _ hnew)]
  · have hold : ¬ (MemoryMap.predefined? name).isSome = true := fun hold => by
      rw [hfix name hold] at hnew
      exact hnew hold
    rw [Option.not_isSome_iff_eq_none.1 hnew, Option.not_isSome_iff_eq_none.1 hold]

/-- The first pass ends alike: with tables that go together, or because of the same label. -/
theorem bindLabels_rename (hr : Set.InjOn r names) {table table' : SymbolTable}
    (h : SymbolTable.Follows r names table table') (pc : Nat) {program : List Statement}
    (hprogram : ∀ x ∈ program, x.NamesIn names) :
    (∃ final final', bindLabels pc table program = .ok final ∧
      bindLabels pc table' (program.map (.rename r)) = .ok final' ∧
      SymbolTable.Follows r names final final') ∨
    ∃ name, bindLabels pc table program = .error (.duplicateLabel name) ∧
      bindLabels pc table' (program.map (.rename r)) = .error (.duplicateLabel (r name)) := by
  induction program generalizing pc table table' with
  | nil => exact .inl ⟨table, table', rfl, rfl, h⟩
  | cons x program ih =>
    obtain ⟨hx, hrest⟩ := List.forall_mem_cons.1 hprogram
    cases x with
    | label name =>
      -- both tables have the label or neither has it
      rw [List.map_cons, Statement.rename, bindLabels, bindLabels, h.contains_eq hx]
      by_cases hname : table.contains name = true
      · rw [if_pos hname, if_pos hname]
        exact .inr ⟨name, rfl, rfl⟩
      · rw [if_neg hname, if_neg hname]
        exact ih (h.insert hr hx pc) pc hrest
    | address a => cases a <;> exact ih h (pc + 1) hrest
    | compute k => exact ih h (pc + 1) hrest

/-- The two allocations go on with the same cell, and their tables go together. -/
structure Allocation.Follows (r : String → String) (names : Set String)
    (alloc alloc' : Allocation) : Prop where
  next_eq : alloc'.next = alloc.next
  table : SymbolTable.Follows r names alloc.table alloc'.table

/-- The new name stands for the same address as the old one. -/
theorem Allocation.Follows.resolve {alloc alloc' : Allocation}
    (h : Allocation.Follows r names alloc alloc') (hr : Set.InjOn r names) {name : String}
    (hname : name ∈ names) :
    (alloc'.resolve (r name)).1 = (alloc.resolve name).1 ∧
      Allocation.Follows r names (alloc.resolve name).2 (alloc'.resolve (r name)).2 := by
  have htable := h.table name hname
  cases hknown : alloc.table[name]? with
  | some address =>
    rw [hknown] at htable
    simp only [Allocation.resolve, hknown, htable]
    exact ⟨trivial, h⟩
  | none =>
    rw [hknown] at htable
    simp only [Allocation.resolve, hknown, htable, h.next_eq]
    exact ⟨trivial, rfl, h.table.insert hr hname alloc.next⟩

/-- The second pass emits the same words. -/
theorem emitWords_rename (hr : Set.InjOn r names) {alloc alloc' : Allocation}
    (h : Allocation.Follows r names alloc alloc') (done : Array Int) {program : List Statement}
    (hprogram : ∀ x ∈ program, x.NamesIn names) :
    emitWords alloc' done (program.map (.rename r)) = emitWords alloc done program := by
  induction program generalizing alloc alloc' done with
  | nil => rfl
  | cons x program ih =>
    obtain ⟨hx, hrest⟩ := List.forall_mem_cons.1 hprogram
    cases x with
    | label name => exact ih h done hrest
    | address a =>
      cases a with
      | literal n => exact ih h (done.push (addressWord n)) hrest
      | symbol name =>
        obtain ⟨haddress, hnext⟩ := h.resolve hr hx
        simp only [List.map_cons, Statement.rename, emitWords, haddress]
        exact ih hnext _ hrest
    | compute k => exact ih h (done.push k.encode) hrest

end

/-- Statements that have been read are assembled into the same words when their labels and symbolic
addresses are renamed, or fail because of the same label.  The new names of different symbols have
to be different, and those of the predefined symbols the old ones. -/
theorem assembleStatements_rename {program : List Statement}
    (hread : ∀ x ∈ program, ∃ number line, Statement.read number line = .ok (some x))
    {r : String → String} (hr : Set.InjOn r symbolNames)
    (hfix : ∀ name, (MemoryMap.predefined? name).isSome = true → r name = name) :
    assembleStatements (program.map (.rename r)) =
      (assembleStatements program).mapError (.rename r) := by
  have hnames : ∀ x ∈ program, x.NamesIn symbolNames := by
    intro x hx
    obtain ⟨number, line, hline⟩ := hread x hx
    exact Statement.namesIn_of_isPrintable (Statement.isPrintable_of_read hline)
  unfold assembleStatements
  rcases bindLabels_rename hr (SymbolTable.follows_initial hr hfix) 0 hnames with
    ⟨table, table', hold, hnew, htables⟩ | ⟨name, hold, hnew⟩
  · rw [hold, hnew]
    have hallocs : Allocation.Follows r symbolNames ⟨table, MemoryMap.variableBase⟩
        ⟨table', MemoryMap.variableBase⟩ := ⟨rfl, htables⟩
    exact congrArg Except.ok (emitWords_rename hr hallocs #[] hnames)
  · rw [hold, hnew]
    rfl

/-- A loop that reads a variable and a register. -/
def countingLoop : List Statement :=
  [.label "LOOP", .address (.symbol "i"), .compute { comp := .d }, .address (.symbol "R5"),
    .address (.symbol "LOOP"), .compute { comp := .zero, jump := .always }]

/-- The label and the variable of the loop can exchange their names. -/
theorem assembleStatements_rename_countingLoop :
    assembleStatements [.label "i", .address (.symbol "LOOP"), .compute { comp := .d },
        .address (.symbol "R5"), .address (.symbol "i"),
        .compute { comp := .zero, jump := .always }] =
      .ok #[16, 0xE300, 5, 0, 0xEA87] := by
  have hread : ∀ x ∈ countingLoop, ∃ number line, Statement.read number line = .ok (some x) := by
    simp only [countingLoop, List.forall_mem_cons]
    exact ⟨⟨1, "(LOOP)", by rfl⟩, ⟨2, "@i", by rfl⟩, ⟨3, "D", by rfl⟩, ⟨4, "@R5", by rfl⟩,
      ⟨5, "@LOOP", by rfl⟩, ⟨6, "0;JMP", by rfl⟩, fun _ h => absurd h List.not_mem_nil⟩
  have hfix (name : String) (h : (MemoryMap.predefined? name).isSome = true) :
      Equiv.swap "LOOP" "i" name = name := by
    refine Equiv.swap_apply_of_ne_of_ne ?_ ?_ <;> rintro rfl <;> exact absurd h (by decide)
  have hwords : assembleStatements countingLoop = .ok #[16, 0xE300, 5, 0, 0xEA87] := by
    rfl
  have := assembleStatements_rename hread (Equiv.injective (Equiv.swap "LOOP" "i")).injOn hfix
  rwa [hwords] at this

end HackToolchain.Asm
