import HackToolchain.Proofs.Asm.Reading
import HackToolchain.Proofs.Asm.Resolution

/-!
# Where assembling fails

Lines are assembled, or one of them is at fault: the first that cannot be read, or, when all of them
can, the first with a label that is predefined or declared before.  The error for a line that cannot
be read carries its number, unless the line asks for an address that consists of digits and is no
numeral.  The error for a label carries its name and not the number of its line.

* `readFrom_cases`: lines are read, or there is a first one that cannot be read;
* `Statement.read_error_cases`: the two kinds of errors in a line;
* `bindLabels_eq_error`: the first pass fails at the first label that is not new;
* `assemble_located`: the four ways in which assembling ends, and what the lines are like in each.
-/

namespace HackToolchain.Asm

open Text

/-! ### Reading line by line -/

/-- Reads lines, of which the first has the given number. -/
def readFrom (number : Nat) : List String → Except Error (List Statement)
  | [] => .ok []
  | line :: lines =>
    match Statement.read number line with
    | .error error => .error error
    | .ok x => (readFrom (number + 1) lines).map (x.toList ++ ·)

theorem readStatements_go_eq (number : Nat) (done : Array Statement) (lines : List String) :
    (readStatements.go number done lines).map Array.toList =
      (readFrom number lines).map (done.toList ++ ·) := by
  induction lines generalizing number done with
  | nil => exact congrArg Except.ok (List.append_nil _).symm
  | cons line lines ih =>
    rw [readStatements.go, readFrom]
    rcases Statement.read number line with error | _ | x
    · rfl
    · dsimp only
      rw [ih]
      cases readFrom (number + 1) lines <;> rfl
    · dsimp only
      rw [ih, Array.toList_push]
      cases readFrom (number + 1) lines with
      | error error => rfl
      | ok program => exact congrArg Except.ok (List.append_assoc _ _ _)

theorem readStatements_eq_readFrom (lines : List String) :
    readStatements lines = readFrom 1 lines := by
  rw [readStatements, readStatements_go_eq]
  cases readFrom 1 lines <;> rfl

section ReadFrom

variable {lines : List String} {program front back : List Statement} {number n : Nat}
  {line : String} {x : Option Statement}

theorem readFrom_cons_eq_ok (hline : Statement.read number line = .ok x)
    (h : readFrom (number + 1) lines = .ok program) :
    readFrom number (line :: lines) = .ok (x.toList ++ program) := by
  rw [readFrom, hline, h]
  rfl

/-- The line with the number `n` stands behind lines that are read as the statements `front`.  The
first of the lines has the given number. -/
def StandsBehind (number : Nat) (lines : List String) (front : List Statement) (n : Nat)
    (line : String) : Prop :=
  ∃ before after, lines = before ++ line :: after ∧ n = number + before.length ∧
    readFrom number before = .ok front

theorem StandsBehind.head (number : Nat) (line : String) (lines : List String) :
    StandsBehind number (line :: lines) [] number line :=
  ⟨[], lines, rfl, rfl, rfl⟩

theorem StandsBehind.cons {first : String} (h : StandsBehind (number + 1) lines front n line)
    (hfirst : Statement.read number first = .ok x) :
    StandsBehind number (first :: lines) (x.toList ++ front) n line := by
  obtain ⟨before, after, rfl, rfl, hbefore⟩ := h
  refine ⟨first :: before, after, rfl, ?_, readFrom_cons_eq_ok hfirst hbefore⟩
  rw [List.length_cons]
  omega

/-- Lines are read, or there is a first one that cannot be read, and it decides the error. -/
theorem readFrom_cases (number : Nat) (lines : List String) :
    (∃ program, readFrom number lines = .ok program) ∨
      ∃ front n line error, StandsBehind number lines front n line ∧
        Statement.read n line = .error error ∧ readFrom number lines = .error error := by
  induction lines generalizing number with
  | nil => exact .inl ⟨[], rfl⟩
  | cons line lines ih =>
    cases hline : Statement.read number line with
    | error error =>
      exact .inr ⟨[], number, line, error, .head number line lines, hline, by rw [readFrom, hline]⟩
    | ok x =>
      rcases ih (number + 1) with ⟨program, hrest⟩ | ⟨front, n, bad, error, hstands, hbad, hrest⟩
      · exact .inl ⟨x.toList ++ program, readFrom_cons_eq_ok hline hrest⟩
      · refine .inr ⟨x.toList ++ front, n, bad, error, hstands.cons hline, hbad, ?_⟩
        rw [readFrom, hline, hrest]
        rfl

/-- Each statement that has been read stands on a line behind those of the statements before it. -/
theorem exists_standsBehind {y : Statement}
    (h : readFrom number lines = .ok (front ++ y :: back)) :
    ∃ n line, StandsBehind number lines front n line ∧
      Statement.read n line = .ok (some y) := by
  induction lines generalizing number front with
  | nil =>
    injection h with h
    exact absurd h.symm (List.append_ne_nil_of_right_ne_nil _ (List.cons_ne_nil _ _))
  | cons first lines ih =>
    rw [readFrom] at h
    cases hfirst : Statement.read number first with
    | error error =>
      rw [hfirst] at h
      cases h
    | ok x =>
      rw [hfirst] at h
      obtain ⟨program, hrest, hprogram⟩ := Except.map_eq_ok h
      -- the statement is that of the first line, or it comes from a line behind
      match x, front, hprogram with
      | none, front, hprogram =>
        obtain ⟨n, line, hstands, hline⟩ := ih (hrest.trans (congrArg Except.ok hprogram))
        exact ⟨n, line, hstands.cons hfirst, hline⟩
      | some z, [], hprogram =>
        injection hprogram with hz
        exact ⟨number, first, .head number first lines, hz ▸ hfirst⟩
      | some z, w :: front, hprogram =>
        injection hprogram with hz hprogram
        obtain ⟨n, line, hstands, hline⟩ := ih (hrest.trans (congrArg Except.ok hprogram))
        exact ⟨n, line, hz ▸ hstands.cons hfirst, hline⟩

end ReadFrom

/-! ### Errors in a line -/

/-- The text consists of digits and has no value as a numeral: one of them is a digit only in
appearance, or there are too many. -/
def IsOddNumeral (cs : List Char) : Prop :=
  isDigits cs = true ∧ ((∃ c ∈ cs, isDecimal c = false) ∨ maxDigits < cs.length)

theorem isOddNumeral_iff {cs : List Char} (hcs : isDigits cs = true) :
    IsOddNumeral cs ↔ ∃ error, readDecimal (String.ofList cs) = .error error := by
  have hvalue := hcs
  rw [isDigits, Bool.and_eq_true, Bool.not_eq_true', List.isEmpty_eq_false_iff,
    List.all_eq_true] at hvalue
  have hiff := exists_readDecimal_iff hvalue.1 hvalue.2
  -- a numeral has no value just if a digit is not decimal or there are too many digits
  cases hread : readDecimal (String.ofList cs) with
  | ok value =>
    obtain ⟨hdecimal, hlength⟩ := hiff.1 ⟨value, hread⟩
    constructor
    · rintro ⟨-, ⟨c, hc, hnone⟩ | hlong⟩
      · rw [hdecimal c hc] at hnone
        cases hnone
      · omega
    · rintro ⟨error, h⟩
      cases h
  | error error =>
    refine ⟨fun _ => ⟨error, rfl⟩, fun _ => ⟨hcs, ?_⟩⟩
    by_contra hsound
    obtain ⟨hnone, hlong⟩ := not_or.1 hsound
    have hdecimal : ∀ c ∈ cs, isDecimal c = true := fun c hc =>
      by_contra fun h => hnone ⟨c, hc, Bool.eq_false_iff.2 h⟩
    obtain ⟨value, hok⟩ := hiff.2 ⟨hdecimal, Nat.not_lt.1 hlong⟩
    rw [hread] at hok
    cases hok

/-- The line asks for an address that consists of digits and has no value. -/
def AsksOddNumeral (line : String) : Prop :=
  ∃ cs, strip (beforeSlashes line.toList) = '@' :: cs ∧ IsOddNumeral cs

section Errors

variable {number : Nat} {line : String} {error : Error}

theorem Except.map_eq_error {ε α β : Type} {f : α → β} {x : Except ε α} {error : ε}
    (h : x.map f = .error error) : x = .error error := by
  cases x with
  | error reason =>
    injection h with h
    rw [h]
  | ok a => cases h

theorem Address.read_error_cases {cs : List Char} (h : Address.read number cs = .error error) :
    (∃ fault, error = .line fault number) ∨
      (∃ reason, error = .numeral reason) ∧ IsOddNumeral cs := by
  unfold Address.read at h
  dsimp only at h
  split at h
  · rename_i hdigits
    split at h
    · rename_i reason hread
      injection h with h
      exact .inr ⟨⟨reason, h.symm⟩, (isOddNumeral_iff hdigits).2 ⟨reason, hread⟩⟩
    · split at h
      · injection h with h
        exact .inl ⟨_, h.symm⟩
      · cases h
  · split at h
    · cases h
    · injection h with h
      exact .inl ⟨_, h.symm⟩

theorem readLabel_eq_error {cs : List Char} (h : readLabel number cs = .error error) :
    ∃ fault, error = .line fault number := by
  unfold readLabel at h
  dsimp only at h
  split at h
  · cases h
  · injection h with h
    exact ⟨_, h.symm⟩

theorem Compute.read_eq_error {cs : List Char} (h : Compute.read number cs = .error error) :
    ∃ fault, error = .line fault number := by
  unfold Compute.read at h
  dsimp only at h
  split at h
  · injection h with h
    exact ⟨_, h.symm⟩
  · split at h
    · injection h with h
      exact ⟨_, h.symm⟩
    · split at h
      · injection h with h
        exact ⟨_, h.symm⟩
      · cases h

/-- A line that cannot be read is at fault, and the error carries its number, or it asks for an
address that consists of digits and has no value. -/
theorem Statement.read_error_cases (h : Statement.read number line = .error error) :
    (∃ fault, error = .line fault number) ∨
      (∃ reason, error = .numeral reason) ∧ AsksOddNumeral line := by
  unfold Statement.read at h
  split at h
  · cases h
  · rename_i cs hline
    exact (Address.read_error_cases (Except.map_eq_error h)).imp_right
      fun ⟨hreason, hodd⟩ => ⟨hreason, cs, hline, hodd⟩
  · exact .inl (readLabel_eq_error (Except.map_eq_error h))
  · exact .inl (Compute.read_eq_error (Except.map_eq_error h))

/-- A line that asks for an address of digits without a value cannot be read, and the error does not
carry its number. -/
theorem Statement.read_of_asksOddNumeral (number : Nat) (h : AsksOddNumeral line) :
    ∃ reason, Statement.read number line = .error (.numeral reason) := by
  obtain ⟨cs, hline, hodd⟩ := h
  obtain ⟨reason, hread⟩ := (isOddNumeral_iff hodd.1).1 hodd
  refine ⟨reason, ?_⟩
  have haddress : Address.read number cs = .error (.numeral reason) := by
    have hdigits : isDigits (String.ofList cs).toList = true := by
      rw [String.toList_ofList]
      exact hodd.1
    rw [← String.toList_ofList (l := cs), Address.read_of_isDigits hdigits, hread]
  unfold Statement.read
  simp only [hline, haddress]
  rfl

end Errors

/-! ### Errors of the first pass -/

/-- No label is declared twice or predefined. -/
def LabelsAreNew (program : List Statement) : Prop :=
  (labels program).Nodup ∧ ∀ name ∈ labels program, MemoryMap.predefined? name = none

instance (program : List Statement) : Decidable (LabelsAreNew program) :=
  inferInstanceAs (Decidable (_ ∧ _))

/-- The first pass fails at the first label that is in the table or declared before. -/
theorem bindLabels_eq_error {pc : Nat} {table : SymbolTable} {code : List Statement} {error : Error}
    (h : bindLabels pc table code = .error error) :
    ∃ front name back, code = front ++ .label name :: back ∧ error = .duplicateLabel name ∧
      (labels front).Nodup ∧ (∀ other ∈ labels front, table[other]? = none) ∧
      (name ∈ labels front ∨ table[name]? ≠ none) := by
  induction code generalizing pc table with
  | nil => cases h
  | cons x code ih =>
    cases x with
    | label first =>
      rw [bindLabels] at h
      split at h
      · -- the label is taken by the table
        rename_i hcontains
        rw [Std.TreeMap.contains_eq_isSome_getElem?] at hcontains
        injection h with h
        exact ⟨[], first, code, rfl, h.symm, List.nodup_nil,
          fun _ hmem => absurd hmem List.not_mem_nil, .inr (Option.ne_none_iff_isSome.2 hcontains)⟩
      · -- the label is new, and counts as taken for those behind it
        rename_i hcontains
        rw [Bool.not_eq_true, Std.TreeMap.contains_eq_isSome_getElem?, Option.isSome_eq_false_iff,
          Option.isNone_iff_eq_none] at hcontains
        obtain ⟨front, name, back, rfl, herror, hnodup, hnew, htaken⟩ := ih h
        simp only [SymbolTable.getElem?_insert] at hnew htaken
        refine ⟨.label first :: front, name, back, rfl, herror, ?_, ?_, ?_⟩
        · rw [labels_label, List.nodup_cons]
          refine ⟨fun hmem => ?_, hnodup⟩
          have := hnew first hmem
          rw [if_pos rfl] at this
          cases this
        · rw [labels_label, List.forall_mem_cons]
          refine ⟨hcontains, fun other hother => ?_⟩
          have := hnew other hother
          split at this
          · cases this
          · exact this
        · rw [labels_label, List.mem_cons]
          rcases htaken with hmem | htable
          · exact .inl (.inr hmem)
          · split at htable
            · exact .inl (.inl (Eq.symm ‹_›))
            · exact .inr htable
    | address a =>
      obtain ⟨front, name, back, rfl, hrest⟩ := ih h
      exact ⟨.address a :: front, name, back, rfl, hrest⟩
    | compute k =>
      obtain ⟨front, name, back, rfl, hrest⟩ := ih h
      exact ⟨.compute k :: front, name, back, rfl, hrest⟩

/-- Statements are assembled, or there is a first label that is predefined or declared before, and
it decides the error. -/
theorem assembleStatements_cases (program : List Statement) :
    LabelsAreNew program ∧ (∃ words, assembleStatements program = .ok words) ∨
      ∃ front name back, program = front ++ .label name :: back ∧ LabelsAreNew front ∧
        (name ∈ labels front ∨ MemoryMap.predefined? name ≠ none) ∧
        assembleStatements program = .error (.duplicateLabel name) := by
  cases hbind : bindLabels 0 SymbolTable.initial program with
  | ok table =>
    obtain ⟨hnodup, hnew, -⟩ := bindLabels_eq_ok hbind
    simp only [SymbolTable.getElem?_initial] at hnew
    exact .inl ⟨⟨hnodup, hnew⟩, exists_assembleStatements hnodup hnew⟩
  | error error =>
    obtain ⟨front, name, back, hsplit, rfl, hnodup, hnew, htaken⟩ := bindLabels_eq_error hbind
    simp only [SymbolTable.getElem?_initial] at hnew htaken
    refine .inr ⟨front, name, back, hsplit, ⟨hnodup, hnew⟩, htaken, ?_⟩
    rw [assembleStatements, hbind]
    rfl

/-! ### Errors of the assembler -/

/-- The line with the number `n` is the first that cannot be read, for the reason given. -/
def FirstUnreadable (lines : List String) (n : Nat) (line : String) (error : Error) : Prop :=
  (∃ front, StandsBehind 1 lines front n line) ∧ Statement.read n line = .error error

/-- The line with the number `n` is the first with a label that is predefined or declared before,
and `name` is this label. -/
def FirstRedeclared (lines : List String) (n : Nat) (name : String) : Prop :=
  ∃ front line, StandsBehind 1 lines front n line ∧ LabelsAreNew front ∧
    Statement.read n line = .ok (some (.label name)) ∧
    (name ∈ labels front ∨ MemoryMap.predefined? name ≠ none)

/-- Assembling ends in one of four ways.  If all lines can be read and all labels are new, there are
words.  If some line cannot be read, the first such line decides the error, which carries its
number, except that it carries none if the line asks for an address of digits without a value.  If
all lines can be read and some label is predefined or declared before, the error carries the first
such label, and not the number of its line. -/
theorem assemble_located (lines : List String) :
    (∃ program words, readStatements lines = .ok program ∧ LabelsAreNew program ∧
        assemble lines = .ok words) ∨
      (∃ n line fault, FirstUnreadable lines n line (.line fault n) ∧ ¬ AsksOddNumeral line ∧
        assemble lines = .error (.line fault n) ∧
        (Error.line fault n).message = fault.message ++ " at line " ++ toString n) ∨
      (∃ n line reason, FirstUnreadable lines n line (.numeral reason) ∧ AsksOddNumeral line ∧
        assemble lines = .error (.numeral reason)) ∨
      ∃ program n name, readStatements lines = .ok program ∧ FirstRedeclared lines n name ∧
        assemble lines = .error (.duplicateLabel name) ∧
        (Error.duplicateLabel name).message = "duplicate label " ++ quote name := by
  have hread := readStatements_eq_readFrom lines
  rcases readFrom_cases 1 lines with
    ⟨program, hok⟩ | ⟨front, n, line, error, hstands, hline, herror⟩
  · -- all lines are read, so that only a label can be at fault
    rw [hok] at hread
    have hassemble : assemble lines = assembleStatements program := by
      rw [assemble, hread]
      rfl
    rw [hassemble]
    rcases assembleStatements_cases program with
      ⟨hnew, words, hwords⟩ | ⟨front, name, back, rfl, hnew, htaken, herror⟩
    · exact .inl ⟨program, words, hread, hnew, hwords⟩
    · obtain ⟨n, line, hstands, hline⟩ := exists_standsBehind hok
      exact .inr (.inr (.inr ⟨_, n, name, hread, ⟨front, line, hstands, hnew, hline, htaken⟩,
        herror, rfl⟩))
  · -- the first line that is not read ends the assembly
    have hassemble : assemble lines = .error error := by
      rw [assemble, hread, herror]
      rfl
    rw [hassemble]
    rcases Statement.read_error_cases hline with ⟨fault, rfl⟩ | ⟨⟨reason, rfl⟩, hodd⟩
    · refine .inr (.inl ⟨n, line, fault, ⟨⟨front, hstands⟩, hline⟩, fun hodd => ?_, rfl, rfl⟩)
      obtain ⟨reason, hother⟩ := Statement.read_of_asksOddNumeral n hodd
      rw [hline] at hother
      cases hother
    · exact .inr (.inr (.inl ⟨n, line, reason, ⟨⟨front, hstands⟩, hline⟩, hodd, rfl⟩))

/-- A label that is declared again on the third line. -/
def twiceDeclared : List String := ["(X)", "@X", "(X)"]

/-- An address that consists of a digit without a value. -/
def superscriptAddress : List String := ["@²"]

/-- The error for the label says nothing of the third line, and the one for the address is none of
the errors with a number. -/
theorem twiceDeclared_hides_line :
    FirstRedeclared twiceDeclared 3 "X" ∧
      assemble twiceDeclared = .error (.duplicateLabel "X") ∧
      (Error.duplicateLabel "X").message = "duplicate label 'X'" ∧
      '3' ∉ (Error.duplicateLabel "X").message.toList ∧
      FirstUnreadable superscriptAddress 1 "@²" (.numeral (.invalid 10 "²")) ∧
      assemble superscriptAddress = .error (.numeral (.invalid 10 "²")) ∧
      (Error.numeral (.invalid 10 "²")).message =
        "invalid literal for int() with base 10: '²'" := by
  have hstands : StandsBehind 1 twiceDeclared [.label "X", .address (.symbol "X")] 3 "(X)" :=
    ⟨["(X)", "@X"], [], rfl, rfl, by decide +kernel⟩
  have hredeclared : FirstRedeclared twiceDeclared 3 "X" :=
    ⟨_, "(X)", hstands, by decide, by decide +kernel, .inl (by decide)⟩
  have hunreadable : FirstUnreadable superscriptAddress 1 "@²" (.numeral (.invalid 10 "²")) :=
    ⟨⟨[], [], [], rfl, rfl, rfl⟩, by decide +kernel⟩
  exact ⟨hredeclared, by decide +kernel, by decide +kernel, by decide +kernel, hunreadable,
    by decide +kernel, by decide +kernel⟩

end HackToolchain.Asm
