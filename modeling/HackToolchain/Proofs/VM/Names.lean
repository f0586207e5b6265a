import HackToolchain.Proofs.Asm.Reading
import HackToolchain.Proofs.Asm.Resolution
import HackToolchain.Proofs.VM.Compilation

/-!
# The names in the code of a program

Which labels the code of an instruction declares, which other symbols it uses, and that all of them
survive printing and reading.

* `Instruction.labels_code`, `Instruction.filter_symbols_code`: the labels and the symbols;
* `isWellFormed_programOf`: the names in a program are tokens, and nothing pops into a constant;
* `readStatements_lines`: what the lines of a program are read as, if they are read at all.
-/

namespace HackToolchain.VM

open Asm Text Code

/-! ### Labels and symbols of an instruction -/

namespace Instruction

/-- The labels that an instruction declares. -/
def declares (s : Scope) : Instruction → List String
  | .start | .call .. => [s.numbered "RET_"]
  | .operation op => if op.isComparison then [s.numbered "TRUE_", s.numbered "END_"] else []
  | .label name => [s.qualify name]
  | .function name _ => [name]
  | _ => []

/-- The symbols that an instruction uses besides those of register cells. -/
def uses (s : Scope) : Instruction → List String
  | .start => [s.numbered "RET_", Emitter.firstFunction]
  | .call name _ => [s.numbered "RET_", name]
  | .operation op => if op.isComparison then [s.numbered "TRUE_", s.numbered "END_"] else []
  | .push .static index | .pop .static index => [s.staticSymbol index]
  | .goto name | .ifGoto name => [s.qualify name]
  | _ => []

theorem filterMap_flatten_replicate {α β : Type} {f : α → Option β} {xs : List α}
    (h : xs.filterMap f = []) (n : Nat) : (List.replicate n xs).flatten.filterMap f = [] := by
  induction n with
  | zero => rfl
  | succ n ih => rw [List.replicate_succ, List.flatten_cons, List.filterMap_append, h, ih]; rfl

theorem labels_code (s : Scope) (i : Instruction) : labels (i.code s) = i.declares s := by
  cases i with
  | operation op => cases op <;> rfl
  | push segment index => cases segment <;> rfl
  | pop segment index => cases segment <;> rfl
  | function name locals =>
    have hzeros : labels (List.replicate locals.toNat pushZero).flatten = [] :=
      filterMap_flatten_replicate rfl _
    rw [code, labels_label, hzeros]
    rfl
  | _ => rfl

/-- What a filter that drops the symbols of register cells leaves of the symbols in use. -/
theorem filter_symbols_code {p : String → Bool} (hp : ∀ cell : Cell, p cell.symbol = false)
    (s : Scope) {i : Instruction} (hi : i.IsLegal) :
    (symbols (i.code s)).filter p = (i.uses s).filter p := by
  cases i with
  | operation op =>
    cases op <;> simp [code, uses, Operation.code, Operation.isComparison, compareCode, popData, hp,
      List.filter_cons]
  | push segment index =>
    cases segment <;> simp [code, uses, Segment.sourceCode, Segment.base?, Segment.address,
      pushIndexed, pushData, hp, List.filter_cons]
  | pop segment index =>
    cases segment with
    | constant => exact absurd rfl (hi index)
    | _ =>
      simp [code, uses, Segment.targetCode, Segment.base?, Segment.address, targetIndexed,
        popToTarget, popData, storeData, hp, List.filter_cons]
  | function name locals =>
    -- the zeros of the local variables use `SP` alone
    have hzeros : (symbols (List.replicate locals.toNat pushZero).flatten).filter p = [] := by
      rw [symbols, List.filter_filterMap]
      refine filterMap_flatten_replicate ?_ _
      rw [← List.filter_filterMap, ← symbols]
      simp [pushZero, hp]
    rw [code, symbols_label, hzeros]
    rfl
  | _ =>
    simp [code, uses, callCode, returnCode, pushData, popData, pushCell, savedCells, enterFrame,
      loadData, storeData, restore, hp, List.filter_cons]

end Instruction

/-! ### Names that survive printing -/

/-- A symbol that is read as it is printed. -/
def IsCleanName (name : String) : Prop :=
  IsPlain name.toList ∧ ∀ c ∈ name.toList.getLast?, isBlank c = false

theorem isCleanName_of_isToken {name : String} (h : IsToken name.toList) : IsCleanName name :=
  ⟨h.isPlain, fun c hc => h.not_blank c (List.mem_of_mem_getLast? hc)⟩

theorem isToken_append_cons {xs ys : List Char} {c : Char} (hxs : IsToken xs) (hys : IsToken ys)
    (hslash : c ≠ '/') (hblank : isBlank c = false) : IsToken (xs ++ c :: ys) where
  ne_nil := List.append_ne_nil_of_left_ne_nil hxs.ne_nil _
  not_blank d hd := by
    rw [List.mem_append, List.mem_cons] at hd
    rcases hd with hd | rfl | hd
    · exact hxs.not_blank d hd
    · exact hblank
    · exact hys.not_blank d hd
  isPlain := hxs.isPlain.append_cons hys.isPlain hslash

theorem isToken_toString (n : Int) : IsToken (toString n).toList where
  ne_nil := toList_toString_int_ne_nil n
  not_blank c hc := by
    rcases mem_toString_int hc with hdigit | rfl
    · exact isBlank_of_asciiDigit hdigit
    · decide
  isPlain := isPlain_of_not_mem fun hslash => absurd (mem_toString_int hslash) (by decide)

namespace Scope

variable {s : Scope}

/-- The function is named by a token, if there is one. -/
def IsNamed (s : Scope) : Prop :=
  s.functionName = "" ∨ IsToken s.functionName.toList

theorem IsNamed.isToken_qualify (hs : s.IsNamed) {name : String} (hname : IsToken name.toList) :
    IsToken (s.qualify name).toList := by
  unfold qualify
  split
  · exact hname
  · rename_i hne
    rcases hs with hs | hs
    · rw [hs] at hne
      exact absurd rfl hne
    · rw [String.toList_append, String.toList_append, List.append_assoc]
      exact isToken_append_cons hs hname (by decide) (by decide)

/-- What generated labels start with. -/
def stems : List String := ["RET_", "TRUE_", "END_"]

theorem isToken_numbered {stem : String} (hstem : stem ∈ stems) :
    IsToken (s.numbered stem).toList := by
  have hnumbered (front : List Char) (hfront : IsToken front)
      (hstem : stem.toList = front ++ ['_']) : IsToken (s.numbered stem).toList := by
    rw [numbered, String.toList_append, hstem, List.append_assoc]
    exact isToken_append_cons hfront (isToken_toString _) (by decide) (by decide)
  simp only [stems, List.mem_cons, List.not_mem_nil, or_false] at hstem
  rcases hstem with rfl | rfl | rfl
  · exact hnumbered ['R', 'E', 'T'] (isToken_of_all (by decide) (by decide)) rfl
  · exact hnumbered ['T', 'R', 'U', 'E'] (isToken_of_all (by decide) (by decide)) rfl
  · exact hnumbered ['E', 'N', 'D'] (isToken_of_all (by decide) (by decide)) rfl

theorem isCleanName_staticSymbol (s : Scope) (hunit : '/' ∉ s.unitName.toList) (index : Int) :
    IsCleanName (s.staticSymbol index) := by
  have hindex := isToken_toString index
  rw [IsCleanName, staticSymbol, String.toList_append, String.toList_append, List.append_assoc]
  refine ⟨(isPlain_of_not_mem hunit).append_cons hindex.isPlain (by decide), fun c hc => ?_⟩
  rw [List.getLast?_append_of_ne_nil _ (by simp),
    List.getLast?_append_of_ne_nil _ hindex.ne_nil] at hc
  exact hindex.not_blank c (List.mem_of_mem_getLast? hc)

end Scope

/-! ### Names in a program -/

/-- The name that an instruction gives. -/
def Instruction.name? : Instruction → Option String
  | .label name | .goto name | .ifGoto name | .function name _ | .call name _ => some name
  | _ => none

/-- The name that an instruction gives is a token. -/
def Instruction.IsNamed (i : Instruction) : Prop :=
  ∀ name ∈ i.name?, IsToken name.toList

theorem Scope.IsNamed.after {s : Scope} (hs : s.IsNamed) {i : Instruction} (hi : i.IsNamed) :
    (i.after s).IsNamed := by
  cases i with
  | function name locals => exact .inr (hi name rfl)
  | operation op => cases op <;> exact hs
  | _ => exact hs

theorem Command.isToken_argument {c : Command} {name : String} (hc : IsPlain c.text.toList)
    (hkind : c.kind ≠ .arithmetic) (h : c.argument = .ok name) : IsToken name.toList := by
  unfold Command.argument at h
  split at h
  · rename_i heq
    exact absurd heq hkind
  · cases h
  · split at h
    · rename_i htokens
      injection h with h
      rw [← h, String.toList_ofList]
      exact isToken_of_mem_tokens hc (by rw [htokens]; simp)
    · cases h

theorem Except.toOption_eq_some {ε α : Type} {x : Except ε α} {a : α}
    (h : x.toOption = some a) : x = .ok a := by
  cases x with
  | error error => cases h
  | ok value =>
    injection h with h
    rw [h]

/-- The name in an instruction that a command without a comment reads as is a token. -/
theorem Instruction.isNamed_of_ofCommand? {c : Command} {i : Instruction}
    (hc : IsPlain c.text.toList) (h : Instruction.ofCommand? c = some i) : i.IsNamed := by
  intro name hname
  unfold Instruction.ofCommand? at h
  cases hkind : c.kind with
  | arithmetic =>
    simp only [hkind, Option.map_eq_some_iff] at h
    obtain ⟨op, -, rfl⟩ := h
    cases hname
  | push | pop =>
    simp only [hkind, Option.bind_eq_bind, Option.bind_eq_some_iff, Option.pure_def,
      Option.some.injEq] at h
    obtain ⟨_, -, _, -, _, -, rfl⟩ := h
    cases hname
  | label | goto | ifGoto =>
    simp only [hkind, Option.map_eq_some_iff] at h
    obtain ⟨_, harg, rfl⟩ := h
    cases hname
    exact Command.isToken_argument hc (by rw [hkind]; decide) (Except.toOption_eq_some harg)
  | function | call =>
    simp only [hkind, Option.bind_eq_bind, Option.bind_eq_some_iff, Option.pure_def,
      Option.some.injEq] at h
    obtain ⟨_, harg, _, -, rfl⟩ := h
    cases hname
    exact Command.isToken_argument hc (by rw [hkind]; decide) (Except.toOption_eq_some harg)
  | ret =>
    simp only [hkind, Option.some.injEq] at h
    subst h
    cases hname

/-- The number in an instruction. -/
def Instruction.count? : Instruction → Option Int
  | .push _ n | .pop _ n | .function _ n | .call _ n => some n
  | _ => none

/-- The number in an instruction is not negative. -/
def Instruction.IsCounted (i : Instruction) : Prop :=
  ∀ n ∈ i.count?, 0 ≤ n

theorem Command.count_nonneg {c : Command} {n : Int} (h : c.count = .ok n) : 0 ≤ n := by
  unfold Command.count at h
  split at h
  · split at h
    · rename_i token _ _
      split at h
      · rename_i hdigits
        cases hread : readDecimal (String.ofList token) with
        | error error =>
          rw [hread] at h
          cases h
        | ok value =>
          rw [hread] at h
          injection h with h
          subst h
          exact readDecimal_nonneg (by rwa [String.toList_ofList]) hread
      · cases h
    · cases h
  · cases h

/-- The number in an instruction that a command reads as is not negative. -/
theorem Instruction.isCounted_of_ofCommand? {c : Command} {i : Instruction}
    (h : Instruction.ofCommand? c = some i) : i.IsCounted := by
  intro n hn
  unfold Instruction.ofCommand? at h
  cases hkind : c.kind with
  | arithmetic | label | goto | ifGoto =>
    simp only [hkind, Option.map_eq_some_iff] at h
    obtain ⟨_, -, rfl⟩ := h
    cases hn
  | push | pop =>
    simp only [hkind, Option.bind_eq_bind, Option.bind_eq_some_iff, Option.pure_def,
      Option.some.injEq] at h
    obtain ⟨_, -, _, -, _, hcount, rfl⟩ := h
    cases hn
    exact Command.count_nonneg (Except.toOption_eq_some hcount)
  | function | call =>
    simp only [hkind, Option.bind_eq_bind, Option.bind_eq_some_iff, Option.pure_def,
      Option.some.injEq] at h
    obtain ⟨_, -, _, hcount, rfl⟩ := h
    cases hn
    exact Command.count_nonneg (Except.toOption_eq_some hcount)
  | ret =>
    simp only [hkind, Option.some.injEq] at h
    subst h
    cases hn

/-- The commands of a source text hold no comments. -/
theorem isPlain_of_readCommands {source : String} {cs : List Command}
    (h : readCommands source = .ok cs) : ∀ c ∈ cs, IsPlain c.text.toList := by
  intro c hc
  obtain ⟨line, -, hpart⟩ := exists_line_of_readCommands h hc
  exact (isPlain_beforeSlashes line).of_isInfix hpart

theorem SourceFile.isCounted_of_mem_instructions {file : SourceFile} {i : Instruction}
    (hi : i ∈ file.instructions) : i.IsCounted := by
  obtain ⟨c, -, hread⟩ := List.mem_filterMap.1 hi
  exact Instruction.isCounted_of_ofCommand? hread

theorem SourceFile.isNamed_of_mem_instructions {file : SourceFile} {i : Instruction}
    (hi : i ∈ file.instructions) : i.IsNamed := by
  obtain ⟨c, hc, hread⟩ := List.mem_filterMap.1 hi
  refine Instruction.isNamed_of_ofCommand? ?_ hread
  unfold SourceFile.commands at hc
  split at hc
  · cases hc
  · rename_i source _
    cases hcommands : readCommands source with
    | error error =>
      rw [hcommands] at hc
      cases hc
    | ok cs =>
      rw [hcommands] at hc
      exact isPlain_of_readCommands hcommands c hc

/-- What holds of every instruction of a program that has been compiled. -/
structure Placed.IsWellFormed (p : Placed) : Prop where
  /-- Nothing is popped into a constant. -/
  isLegal : p.instruction.IsLegal
  /-- The name in the instruction is a token. -/
  isNamed : p.instruction.IsNamed
  /-- So is the name of the function. -/
  scope_isNamed : p.scope.IsNamed
  /-- The number in the instruction is not negative. -/
  isCounted : p.instruction.IsCounted

theorem isWellFormed_layOut {s : Scope} {is : List Instruction} (hs : s.IsNamed)
    (his : ∀ i ∈ is, i.IsLegal ∧ i.IsNamed ∧ i.IsCounted) :
    (∀ p ∈ layOut s is, p.IsWellFormed) ∧ (scopeAfter s is).IsNamed := by
  induction is generalizing s with
  | nil => exact ⟨fun _ hp => absurd hp List.not_mem_nil, hs⟩
  | cons i is ih =>
    obtain ⟨hlegal, hnamed, hcounted⟩ := his i List.mem_cons_self
    obtain ⟨hrest, hafter⟩ :=
      ih (hs.after hnamed) fun j hj => his j (List.mem_cons_of_mem _ hj)
    refine ⟨fun p hp => ?_, hafter⟩
    rcases List.mem_cons.1 hp with rfl | hp
    · exact ⟨hlegal, hnamed, hs, hcounted⟩
    · exact hrest p hp

/-- The names in a program are tokens, the numbers are not negative, and nothing pops into a
constant. -/
theorem isWellFormed_programOf {files : List SourceFile} {bootstrap : Bool}
    (hlegal : ∀ file ∈ files, ∀ i ∈ file.instructions, i.IsLegal) :
    ∀ p ∈ programOf files bootstrap, p.IsWellFormed := by
  -- the scope stays one of names from file to file
  have hfiles {s : Scope} (hs : s.IsNamed) : ∀ p ∈ layOutFiles s files, p.IsWellFormed := by
    induction files generalizing s with
    | nil => exact fun _ hp => absurd hp List.not_mem_nil
    | cons file files ih =>
      have hfile : ∀ i ∈ file.instructions, i.IsLegal ∧ i.IsNamed ∧ i.IsCounted := fun i hi =>
        ⟨hlegal file List.mem_cons_self i hi, SourceFile.isNamed_of_mem_instructions hi,
          SourceFile.isCounted_of_mem_instructions hi⟩
      obtain ⟨hfirst, hafter⟩ := isWellFormed_layOut (s := file.enter s) hs hfile
      intro p hp
      rcases List.mem_append.1 hp with hp | hp
      · exact hfirst p hp
      · exact ih (fun f hf => hlegal f (List.mem_cons_of_mem _ hf)) hafter p hp
  have hpreamble : ∀ i ∈ preamble bootstrap, i.IsLegal ∧ i.IsNamed ∧ i.IsCounted := by
    intro i hi
    cases bootstrap with
    | false => cases hi
    | true =>
      rw [preamble, if_pos rfl, List.mem_singleton] at hi
      subst hi
      exact ⟨fun _ => Instruction.noConfusion, fun _ h => absurd h (Option.not_mem_none _),
        fun _ h => absurd h (Option.not_mem_none _)⟩
  obtain ⟨hfirst, hafter⟩ := isWellFormed_layOut (s := {}) (.inl rfl) hpreamble
  intro p hp
  rcases List.mem_append.1 hp with hp | hp
  · exact hfirst p hp
  · exact hfiles hafter p hp

/-- The unit of an instruction is that of a file, or the one that no file has named. -/
theorem unitName_programOf {files : List SourceFile} {bootstrap : Bool} :
    ∀ p ∈ programOf files bootstrap,
      p.scope.unitName = "Static" ∨ ∃ file ∈ files, p.scope.unitName = file.path.stem := by
  -- no instruction leaves the unit
  have hlayOut {s : Scope} {is : List Instruction} :
      ∀ p ∈ layOut s is, p.scope.unitName = s.unitName := by
    induction is generalizing s with
    | nil => exact fun _ hp => absurd hp List.not_mem_nil
    | cons i is ih =>
      intro p hp
      rcases List.mem_cons.1 hp with rfl | hp
      · rfl
      · rw [ih p hp]
        cases i with
        | operation op => cases op <;> rfl
        | _ => rfl
  have hfiles {s : Scope} :
      ∀ p ∈ layOutFiles s files, ∃ file ∈ files, p.scope.unitName = file.path.stem := by
    induction files generalizing s with
    | nil => exact fun _ hp => absurd hp List.not_mem_nil
    | cons file files ih =>
      intro p hp
      rcases List.mem_append.1 hp with hp | hp
      · exact ⟨file, List.mem_cons_self, hlayOut p hp⟩
      · obtain ⟨f, hf, hunit⟩ := ih p hp
        exact ⟨f, List.mem_cons_of_mem _ hf, hunit⟩
  intro p hp
  rcases List.mem_append.1 hp with hp | hp
  · exact .inl (hlayOut p hp)
  · exact .inr (hfiles p hp)

/-! ### Reading the code -/

namespace Instruction

variable {s : Scope} {i : Instruction}

/-- The labels that an instruction declares are tokens. -/
theorem isToken_declares (hs : s.IsNamed) (hi : i.IsNamed) :
    ∀ name ∈ i.declares s, IsToken name.toList := by
  intro name hname
  cases i with
  | start | call =>
    rw [declares, List.mem_singleton] at hname
    subst hname
    exact Scope.isToken_numbered (by decide)
  | operation op =>
    rw [declares] at hname
    split at hname
    · simp only [List.mem_cons, List.not_mem_nil, or_false] at hname
      rcases hname with rfl | rfl
      · exact Scope.isToken_numbered (by decide)
      · exact Scope.isToken_numbered (by decide)
    · cases hname
  | label label =>
    rw [declares, List.mem_singleton] at hname
    subst hname
    exact hs.isToken_qualify (hi label rfl)
  | function function locals =>
    rw [declares, List.mem_singleton] at hname
    subst hname
    exact hi name rfl
  | _ => cases hname

/-- The symbols that an instruction uses are read as they are printed. -/
theorem isCleanName_uses (hs : s.IsNamed) (hi : i.IsNamed) (hunit : '/' ∉ s.unitName.toList) :
    ∀ name ∈ i.uses s, IsCleanName name := by
  have hnumbered {stem : String} (hstem : stem ∈ Scope.stems) : IsCleanName (s.numbered stem) :=
    isCleanName_of_isToken (Scope.isToken_numbered hstem)
  intro name hname
  cases i with
  | start =>
    simp only [uses, List.mem_cons, List.not_mem_nil, or_false] at hname
    rcases hname with rfl | rfl
    · exact hnumbered (by decide)
    · exact isCleanName_of_isToken (isToken_of_all (by decide) (by decide))
  | call function arguments =>
    simp only [uses, List.mem_cons, List.not_mem_nil, or_false] at hname
    rcases hname with rfl | rfl
    · exact hnumbered (by decide)
    · exact isCleanName_of_isToken (hi name rfl)
  | operation op =>
    rw [uses] at hname
    split at hname
    · simp only [List.mem_cons, List.not_mem_nil, or_false] at hname
      rcases hname with rfl | rfl
      · exact hnumbered (by decide)
      · exact hnumbered (by decide)
    · cases hname
  | push segment index | pop segment index =>
    cases segment with
    | static =>
      rw [uses, List.mem_singleton] at hname
      subst hname
      exact s.isCleanName_staticSymbol hunit index
    | _ => cases hname
  | goto label | ifGoto label =>
    rw [uses, List.mem_singleton] at hname
    subst hname
    exact isCleanName_of_isToken (hs.isToken_qualify (hi label rfl))
  | _ => cases hname

end Instruction

theorem isCleanName_symbol (cell : Cell) : IsCleanName cell.symbol :=
  isCleanName_of_isToken (isToken_of_all (by cases cell <;> decide) (by cases cell <;> decide))

theorem mem_labels {name : String} {code : List Statement} :
    name ∈ labels code ↔ .label name ∈ code := by
  rw [labels, List.mem_filterMap]
  constructor
  · rintro ⟨x, hx, hname⟩
    cases x with
    | label other =>
      injection hname with hname
      rwa [← hname]
    | _ => cases hname
  · exact fun h => ⟨_, h, rfl⟩

theorem mem_symbols {name : String} {code : List Statement} :
    name ∈ symbols code ↔ .address (.symbol name) ∈ code := by
  rw [symbols, List.mem_filterMap]
  constructor
  · rintro ⟨x, hx, hname⟩
    cases x with
    | address a =>
      cases a with
      | literal n => cases hname
      | symbol other =>
        injection hname with hname
        rwa [← hname]
    | _ => cases hname
  · exact fun h => ⟨_, h, rfl⟩

/-- The code of a well-formed instruction is read as it is printed, if no slash stands in the name
of its unit. -/
theorem Placed.IsWellFormed.isClean {p : Placed} (hp : p.IsWellFormed)
    (hunit : '/' ∉ p.scope.unitName.toList) : ∀ x ∈ p.code, x.IsClean := by
  intro x hx
  cases x with
  | label name =>
    have hdeclares : name ∈ p.instruction.declares p.scope := by
      rw [← Instruction.labels_code]
      exact mem_labels.2 hx
    exact (Instruction.isToken_declares hp.scope_isNamed hp.isNamed name hdeclares).isPlain
  | compute k => trivial
  | address a =>
    cases a with
    | literal n => trivial
    | symbol name =>
      by_cases hcell : ∃ cell : Cell, cell.symbol = name
      · obtain ⟨cell, rfl⟩ := hcell
        exact isCleanName_symbol cell
      · -- all symbols but those of the cells are in use by the instruction itself
        have hname : name ∈ p.instruction.uses p.scope := by
          classical
          have hfilter := Instruction.filter_symbols_code
            (p := fun name => decide ¬ ∃ cell : Cell, cell.symbol = name)
            (fun cell => by simp) p.scope hp.isLegal
          have hmem : name ∈ (symbols p.code).filter
              fun name => decide ¬ ∃ cell : Cell, cell.symbol = name :=
            List.mem_filter.2 ⟨mem_symbols.2 hx, decide_eq_true hcell⟩
          rw [Placed.code, hfilter] at hmem
          exact (List.mem_filter.1 hmem).1
        exact Instruction.isCleanName_uses hp.scope_isNamed hp.isNamed hunit name hname

theorem Statement.read_comment (number : Nat) (text : String) :
    Statement.read number (Line.comment text).text = .ok none := by
  rw [Statement.read, Line.toList_text_comment, beforeSlashes_slashes, strip_nil]

theorem readStatements_go_lines {number : Nat} {done result : Array Statement} {lines : List Line}
    (hclean : ∀ x ∈ statementsOf lines, x.IsClean)
    (h : readStatements.go number done (lines.map Line.text) = .ok result) :
    result.toList = done.toList ++ (statementsOf lines).map Statement.reread ∧
      ∀ x ∈ statementsOf lines, x.IsReadable := by
  induction lines generalizing number done with
  | nil =>
    injection h with h
    rw [← h]
    exact ⟨(List.append_nil _).symm, fun _ hx => absurd hx List.not_mem_nil⟩
  | cons line lines ih =>
    rw [List.map_cons, readStatements.go] at h
    cases line with
    | comment text =>
      -- a comment is no statement, but it has a line number
      rw [Statement.read_comment] at h
      exact ih hclean h
    | statement x =>
      have hstatements : statementsOf (.statement x :: lines) = x :: statementsOf lines := rfl
      rw [hstatements] at hclean ⊢
      cases hread : Statement.read number x.text with
      | error error =>
        rw [Line.text, hread] at h
        cases h
      | ok y =>
        obtain ⟨rfl, hx⟩ := Statement.read_text (hclean x List.mem_cons_self) hread
        rw [Line.text, hread] at h
        obtain ⟨hresult, hrest⟩ := ih (fun z hz => hclean z (List.mem_cons_of_mem _ hz)) h
        refine ⟨by rw [hresult, Array.toList_push, List.append_assoc]; rfl, fun z hz => ?_⟩
        rcases List.mem_cons.1 hz with rfl | hz
        · exact hx
        · exact hrest z hz

/-- The lines of a program are read as its statements, comments being passed over, if they are read
at all. -/
theorem readStatements_lines {lines : List Line} {program : List Statement}
    (hclean : ∀ x ∈ statementsOf lines, x.IsClean)
    (h : readStatements (lines.map Line.text) = .ok program) :
    program = (statementsOf lines).map Statement.reread ∧
      ∀ x ∈ statementsOf lines, x.IsReadable := by
  unfold readStatements at h
  cases hgo : readStatements.go 1 #[] (lines.map Line.text) with
  | error error =>
    rw [hgo] at h
    cases h
  | ok result =>
    rw [hgo] at h
    injection h with h
    obtain ⟨hresult, hreadable⟩ := readStatements_go_lines hclean hgo
    rw [← h, hresult]
    exact ⟨rfl, hreadable⟩

end HackToolchain.VM
