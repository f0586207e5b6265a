import HackToolchain.Proofs.Asm.Words

/-!
# Printing what has been read

A statement can be written in many ways, with comments and blanks around it, spaces within it, zeros
in front of a number or empty fields, and is printed in one.  What is printed is read as the
statement again, so that printing a program brings its lines into a normal form.

* `Statement.isPrintable_of_read`: what holds of every statement that has been read;
* `Statement.read_text_of_isPrintable`: a statement of which this holds is read as itself;
* `read_printed`: so it is with every statement that has been read, and a program is assembled alike
  before and after it has been printed.
-/

namespace HackToolchain.Asm

open Text

/-! ### Symbols -/

theorem mem_dropFinalFeed_or_of_mem {cs : List Char} {c : Char} (h : c ∈ cs) :
    c ∈ dropFinalFeed cs ∨ c = '\n' := by
  unfold dropFinalFeed
  split
  · rename_i hlast
    rw [beq_iff_eq] at hlast
    obtain ⟨front, rfl⟩ := List.getLast?_eq_some_iff.1 hlast
    rw [List.dropLast_concat]
    rcases List.mem_append.1 h with h | h
    · exact .inl h
    · exact .inr (List.mem_singleton.1 h)
  · exact .inl h

/-- No comment starts in a symbol. -/
theorem slash_notMem_of_isSymbol {cs : List Char} (h : isSymbol cs = true) : '/' ∉ cs := by
  cases cs with
  | nil => exact List.not_mem_nil
  | cons c cs =>
    rw [isSymbol, Bool.and_eq_true, List.all_eq_true] at h
    intro hmem
    rcases List.mem_cons.1 hmem with rfl | hmem
    · exact absurd h.1 (by decide)
    · rcases mem_dropFinalFeed_or_of_mem hmem with hmem | hfeed
      · exact absurd (h.2 _ hmem) (by decide)
      · exact absurd hfeed (by decide)

theorem Address.read_of_isSymbol (number : Nat) {name : String} (h : isSymbol name.toList = true) :
    Address.read number name.toList = .ok (.symbol name) := by
  rw [Address.read, String.ofList_toList]
  change (if isDigits name.toList = true then _ else _) = _
  rw [isDigits_of_isSymbol h, if_neg Bool.false_ne_true, if_pos h]

theorem readLabel_of_isSymbol (number : Nat) {name : String} (h : isSymbol name.toList = true) :
    readLabel number ('(' :: (name.toList ++ [')'])) = .ok name := by
  simp only [readLabel, List.drop_one, List.tail_cons, List.dropLast_concat,
    getLast?_cons_append_singleton, h, beq_self_eq_true, Bool.and_self, if_true,
    String.ofList_toList]

/-! ### Statements that have been read -/

/-- What holds of a statement that has been read: a number fits an instruction, a name is a symbol,
and an address does not end with the line feed that a symbol may end with. -/
def Statement.IsPrintable : Statement → Prop
  | .address (.literal n) => 0 ≤ n ∧ n ≤ MemoryMap.maxAddress
  | .address (.symbol name) =>
    isSymbol name.toList = true ∧ ∀ c ∈ name.toList.getLast?, isBlank c = false
  | .label name => isSymbol name.toList = true
  | .compute _ => True

theorem Address.isSymbol_of_read {number : Nat} {cs : List Char} {name : String}
    (h : Address.read number cs = .ok (.symbol name)) :
    name.toList = cs ∧ isSymbol cs = true := by
  unfold Address.read at h
  dsimp only at h
  split at h
  · split at h
    · cases h
    · split at h <;> cases h
  · split at h
    · rename_i hsymbol
      injection h with h
      injection h with h
      rw [← h, String.toList_ofList]
      exact ⟨rfl, hsymbol⟩
    · cases h

/-- Every statement that has been read can be printed. -/
theorem Statement.isPrintable_of_read {number : Nat} {line : String} {x : Statement}
    (h : Statement.read number line = .ok (some x)) : x.IsPrintable := by
  have hreadable := Statement.isReadable_of_read h
  cases x with
  | address a =>
    cases a with
    | literal n => exact hreadable
    | symbol name =>
      have hlast := getLast?_strip (beforeSlashes line.toList)
      unfold Statement.read at h
      split at h
      · cases h
      · rename_i cs hline
        obtain ⟨a, hread, heq⟩ := Except.map_eq_ok h
        cases heq
        obtain ⟨rfl, hsymbol⟩ := Address.isSymbol_of_read hread
        -- the last character of a symbol is the last one of its line
        refine ⟨hsymbol, fun c hc => hlast c ?_⟩
        rw [hline]
        exact List.mem_getLast?_cons hc
      · obtain ⟨_, -, heq⟩ := Except.map_eq_ok h
        cases heq
      · obtain ⟨_, -, heq⟩ := Except.map_eq_ok h
        cases heq
  | label name => exact hreadable
  | compute k => trivial

/-- A statement that can be printed is read as itself. -/
theorem Statement.read_text_of_isPrintable {x : Statement} (hx : x.IsPrintable) (number : Nat) :
    Statement.read number x.text = .ok (some x) := by
  cases x with
  | address a =>
    cases a with
    | literal n =>
      obtain ⟨n, rfl⟩ := Int.eq_ofNat_of_zero_le hx.1
      exact Statement.read_literal number (Int.ofNat_le.1 hx.2)
    | symbol name =>
      obtain ⟨hsymbol, hlast⟩ := hx
      have hplain : IsPlain name.toList := isPlain_of_not_mem (slash_notMem_of_isSymbol hsymbol)
      rw [Statement.read_address (a := .symbol name) ⟨hplain, hlast⟩, Address.text,
        Address.read_of_isSymbol number hsymbol]
      rfl
  | label name =>
    rw [Statement.read_label (isPlain_of_not_mem (slash_notMem_of_isSymbol hx)),
      readLabel_of_isSymbol number hx]
    rfl
  | compute k => exact Statement.read_compute number k

/-- A statement that has been read is printed as a line that is read as this statement, whatever the
numbers of the lines.  So a program is assembled into the same words, or fails with the same error,
when its lines have been read and printed. -/
theorem read_printed :
    (∀ number line x, Statement.read number line = .ok (some x) →
      ∀ number', Statement.read number' x.text = .ok (some x)) ∧
    ∀ lines program, readStatements lines = .ok program →
      assemble (program.map Statement.text) = assemble lines := by
  have hline (number : Nat) (line : String) (x : Statement)
      (h : Statement.read number line = .ok (some x)) (number' : Nat) :
      Statement.read number' x.text = .ok (some x) :=
    Statement.read_text_of_isPrintable (Statement.isPrintable_of_read h) number'
  refine ⟨hline, fun lines program h => ?_⟩
  have hprinted : readStatements (program.map Statement.text) = .ok program := by
    refine readStatements_map_text fun x hx number => ?_
    obtain ⟨other, line, -, hread⟩ := exists_line_of_readStatements h hx
    exact hline other line x hread number
  rw [assemble, assemble, hprinted, h]

/-- A program of which no line is as it is printed. -/
def looseProgram : List String :=
  ["", "  @007  // seven", "=D", "MD = A + D ; ", "(A$\n)", "@A$", "D;", "// end"]

theorem read_printed_looseProgram :
    Statement.read 5 "(A$\n)" = .ok (some (.label "A$\n")) ∧
      Statement.read 1 (Statement.label "A$\n").text = .ok (some (.label "A$\n")) ∧
      assemble ["@7", "D", "MD=A+D", "(A$\n)", "@A$", "D"] = assemble looseProgram := by
  have hlabel : Statement.read 5 "(A$\n)" = .ok (some (.label "A$\n")) := by rfl
  have hread : readStatements looseProgram = .ok [.address (.literal 7),
      .compute { comp := .d }, .compute ⟨⟨[.m, .d], by decide⟩, .add .a .dLast, .never⟩,
      .label "A$\n", .address (.symbol "A$"), .compute { comp := .d }] := by
    rfl
  exact ⟨hlabel, read_printed.1 5 _ _ hlabel 1, read_printed.2 _ _ hread⟩

end HackToolchain.Asm
