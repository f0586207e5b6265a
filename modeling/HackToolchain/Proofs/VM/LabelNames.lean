import HackToolchain.Proofs.VM.Placement
import Mathlib.Data.List.Nodup

/-!
# The labels of a program are distinct

Three kinds of labels share one table: the functions, the labels inside and outside of functions,
and those that are generated.  An `Origin` says what a label was made of, and `Origin.symbol` makes
it.

* `Continues`: through all units of a program the scope goes on where the instruction before has
  left it, so that each label stands in a function of the program and no number is used twice;
* `nodup_originsOf`: no two labels of a program have the same origin, if the program gives no name
  twice;
* `Origin.symbol_inj`: different origins have different symbols, if the names cannot be mistaken for
  symbols of another kind;
* `labels_distinct`: so no label of a program is declared twice, none is predefined, and the
  assembler does not find one that is.
-/

namespace HackToolchain.VM

open Asm Machine Text

/-! ### Scopes through a program -/

/-- The function that an instruction begins. -/
def Instruction.function? : Instruction → Option String
  | .function name _ => some name
  | _ => none

/-- The name of the label that an instruction declares. -/
def Instruction.label? : Instruction → Option String
  | .label name => some name
  | _ => none

theorem Instruction.after_functionName (s : Scope) (i : Instruction) :
    (i.after s).functionName = i.function?.getD s.functionName := by
  cases i with
  | operation op => cases op <;> rfl
  | _ => rfl

theorem Instruction.after_labelsUsed (s : Scope) (i : Instruction) :
    (i.after s).labelsUsed = if i.takesLabel then s.labelsUsed + 1 else s.labelsUsed := by
  cases i with
  | operation op => cases op <;> rfl
  | _ => rfl

/-- The instructions stand one behind the other, the first of them in the given function and behind
the given number of generated labels. -/
def Continues (function : String) (used : Int) : List Placed → Prop
  | [] => True
  | p :: program =>
    p.scope.functionName = function ∧ p.scope.labelsUsed = used ∧
      Continues (p.instruction.after p.scope).functionName (p.instruction.after p.scope).labelsUsed
        program

theorem continues_layOut {s : Scope} {is : List Instruction} {program : List Placed}
    (h : Continues (scopeAfter s is).functionName (scopeAfter s is).labelsUsed program) :
    Continues s.functionName s.labelsUsed (layOut s is ++ program) := by
  induction is generalizing s with
  | nil => exact h
  | cons i is ih => exact ⟨rfl, rfl, ih h⟩

theorem continues_layOutFiles (s : Scope) (files : List SourceFile) :
    Continues s.functionName s.labelsUsed (layOutFiles s files) := by
  induction files generalizing s with
  | nil => trivial
  | cons file files ih => exact continues_layOut (s := file.enter s) (ih _)

/-- A program starts outside of all functions, with the number zero. -/
theorem continues_programOf (files : List SourceFile) (bootstrap : Bool) :
    Continues "" 0 (programOf files bootstrap) :=
  continues_layOut (s := {}) (continues_layOutFiles _ files)

/-- The names of the functions of a program. -/
def functionNames (program : List Placed) : List String :=
  program.filterMap fun p => p.instruction.function?

/-- The names of the labels of a program, each with the function in which it is declared; the name
of the function is empty before the first one. -/
def labelNames (program : List Placed) : List (String × String) :=
  program.filterMap fun p => p.instruction.label?.map fun name => (p.scope.functionName, name)

section Continues

variable {function : String} {used : Int} {program : List Placed}

/-- Each instruction stands in the first function or in one that the program begins. -/
theorem Continues.functionName (h : Continues function used program) :
    ∀ p ∈ program,
      p.scope.functionName = function ∨ p.scope.functionName ∈ functionNames program := by
  induction program generalizing function used with
  | nil => exact fun _ hp => absurd hp List.not_mem_nil
  | cons q program ih =>
    obtain ⟨rfl, -, hrest⟩ := h
    intro p hp
    rcases List.mem_cons.1 hp with rfl | hp
    · exact .inl rfl
    · rw [functionNames, List.filterMap_cons]
      rw [q.instruction.after_functionName] at hrest
      cases hfunction : q.instruction.function? with
      | none =>
        rw [hfunction] at hrest
        exact ih hrest p hp
      | some name =>
        rw [hfunction] at hrest
        refine .inr ?_
        rcases ih hrest p hp with hname | hname
        · rw [hname]
          exact List.mem_cons_self
        · exact List.mem_cons_of_mem _ hname

theorem Continues.used_le (h : Continues function used program) :
    ∀ p ∈ program, used ≤ p.scope.labelsUsed := by
  induction program generalizing function used with
  | nil => exact fun _ hp => absurd hp List.not_mem_nil
  | cons q program ih =>
    obtain ⟨-, rfl, hrest⟩ := h
    intro p hp
    rcases List.mem_cons.1 hp with rfl | hp
    · exact Int.le_refl _
    · have := ih hrest p hp
      rw [q.instruction.after_labelsUsed] at this
      split at this <;> omega

/-- A number that an instruction takes is not used again. -/
theorem Continues.pairwise_labelsUsed (h : Continues function used program) :
    program.Pairwise fun p q =>
      p.instruction.takesLabel = true → p.scope.labelsUsed < q.scope.labelsUsed := by
  induction program generalizing function used with
  | nil => exact .nil
  | cons p program ih =>
    obtain ⟨-, rfl, hrest⟩ := h
    refine .cons (fun q hq htakes => ?_) (ih hrest)
    have := hrest.used_le q hq
    rw [p.instruction.after_labelsUsed, if_pos htakes] at this
    omega

end Continues

/-! ### Origins -/

/-- What a label is made of. -/
inductive Origin where
  /-- A function. -/
  | function (name : String)
  /-- A label in a function; the name of the function is empty outside of functions. -/
  | label (owner name : String)
  /-- A generated label, with its stem and its number. -/
  | generated (stem : String) (number : Int)
  deriving DecidableEq, Repr

/-- The symbol that is made of it. -/
def Origin.symbol : Origin → String
  | .function name => name
  | .label owner name => Scope.qualify { functionName := owner } name
  | .generated stem number => Scope.numbered { labelsUsed := number } stem

/-- The origins of the labels that an instruction declares. -/
def Instruction.origins (s : Scope) : Instruction → List Origin
  | .start | .call .. => [.generated "RET_" s.labelsUsed]
  | .operation op =>
    if op.isComparison then
      [.generated "TRUE_" s.labelsUsed, .generated "END_" s.labelsUsed]
    else []
  | .label name => [.label s.functionName name]
  | .function name _ => [.function name]
  | _ => []

theorem Instruction.declares_eq (s : Scope) (i : Instruction) :
    i.declares s = (i.origins s).map Origin.symbol := by
  cases i with
  | operation op => cases op <;> rfl
  | _ => rfl

/-- The origins of the labels of a program. -/
def originsOf (program : List Placed) : List Origin :=
  program.flatMap fun p => p.instruction.origins p.scope

theorem labels_codeOf (program : List Placed) :
    labels (codeOf program) = (originsOf program).map Origin.symbol := by
  induction program with
  | nil => rfl
  | cons p program ih =>
    have hcons : originsOf (p :: program) = p.instruction.origins p.scope ++ originsOf program :=
      List.flatMap_cons
    rw [codeOf_cons, labels_append, ih, hcons, List.map_append, Placed.code,
      Instruction.labels_code, Instruction.declares_eq]

namespace Instruction

variable {s : Scope} {i : Instruction}

theorem function_mem_origins {name : String} (h : .function name ∈ i.origins s) :
    i.function? = some name := by
  cases i with
  | operation op => cases op <;> simp [origins, Operation.isComparison] at h
  | function other =>
    simp only [origins, List.mem_singleton, Origin.function.injEq] at h
    exact congrArg some h.symm
  | _ => simp [origins] at h

theorem label_mem_origins {owner name : String} (h : .label owner name ∈ i.origins s) :
    i.label? = some name ∧ s.functionName = owner := by
  cases i with
  | operation op => cases op <;> simp [origins, Operation.isComparison] at h
  | label =>
    simp only [origins, List.mem_singleton, Origin.label.injEq] at h
    exact ⟨congrArg some h.2.symm, h.1.symm⟩
  | _ => simp [origins] at h

theorem generated_mem_origins {stem : String} {number : Int}
    (h : .generated stem number ∈ i.origins s) :
    i.takesLabel = true ∧ stem ∈ Scope.stems ∧ number = s.labelsUsed := by
  cases i with
  | operation op =>
    cases op with
    | eq | gt | lt =>
      simp only [origins, Operation.isComparison, if_true, List.mem_cons, List.not_mem_nil,
        or_false, Origin.generated.injEq] at h
      rcases h with ⟨rfl, rfl⟩ | ⟨rfl, rfl⟩
      · exact ⟨rfl, by decide, rfl⟩
      · exact ⟨rfl, by decide, rfl⟩
    | _ => simp [origins, Operation.isComparison] at h
  | start | call =>
    simp only [origins, List.mem_singleton, Origin.generated.injEq] at h
    obtain ⟨rfl, rfl⟩ := h
    exact ⟨rfl, by decide, rfl⟩
  | _ => simp [origins] at h

theorem nodup_origins (s : Scope) (i : Instruction) : (i.origins s).Nodup := by
  cases i with
  | operation op => cases op <;> simp [origins, Operation.isComparison]
  | _ => simp [origins]

end Instruction

/-! ### Names that are fit -/

/-- The name can stand alone as a label. -/
structure IsOrdinary (name : String) : Prop where
  /-- It is not of the form of a label in a function. -/
  dollar : '$' ∉ name.toList
  /-- It is not predefined. -/
  predefined : MemoryMap.predefined? name = none
  /-- It is not of the form of a generated label. -/
  generated : ∀ stem ∈ Scope.stems, ∀ n : Nat, name ≠ stem ++ toString n

theorem isOrdinary_of_notMem {name : String} (hdollar : '$' ∉ name.toList)
    (hmark : '_' ∉ name.toList) (hpredefined : MemoryMap.predefined? name = none) :
    IsOrdinary name := by
  refine ⟨hdollar, hpredefined, fun stem hstem n heq => hmark ?_⟩
  obtain ⟨front, hfront, -⟩ := Scope.exists_toList_stem hstem
  rw [heq, String.toList_append, hfront]
  simp

/-- The names that a program gives are distinct, as far as they stand for the same kind of thing,
and those that stand alone are fit for that. -/
structure NamesAreFit (program : List Placed) : Prop where
  /-- The functions have different names. -/
  functions_nodup : (functionNames program).Nodup
  functions_ordinary : ∀ name ∈ functionNames program, IsOrdinary name
  /-- The labels in a function have different names, and so have those before the first function. -/
  labels_nodup : (labelNames program).Nodup
  /-- The labels before the first function are not named like functions. -/
  outer_ordinary : ∀ name, ("", name) ∈ labelNames program →
    IsOrdinary name ∧ name ∉ functionNames program

/-- No two labels of a program have the same origin. -/
theorem nodup_originsOf {function : String} {used : Int} {program : List Placed}
    (h : Continues function used program) (hnames : NamesAreFit program) :
    (originsOf program).Nodup := by
  rw [originsOf, List.nodup_flatMap]
  -- no instruction declares a label twice, and no two of them declare one of the same origin
  refine ⟨fun p _ => Instruction.nodup_origins _ _, ?_⟩
  have hfunctions := List.pairwise_filterMap.1 hnames.functions_nodup
  have hlabels := List.pairwise_filterMap.1 hnames.labels_nodup
  refine ((hfunctions.and hlabels).and h.pairwise_labelsUsed).imp ?_
  rintro p q ⟨⟨hfunction, hlabel⟩, hnumber⟩ x hp hq
  cases x with
  | function name =>
    exact hfunction name (Instruction.function_mem_origins hp) name
      (Instruction.function_mem_origins hq) rfl
  | label owner name =>
    obtain ⟨hpname, hpowner⟩ := Instruction.label_mem_origins hp
    obtain ⟨hqname, hqowner⟩ := Instruction.label_mem_origins hq
    exact hlabel (owner, name) (by rw [hpname, hpowner]; rfl) (owner, name)
      (by rw [hqname, hqowner]; rfl) rfl
  | generated stem number =>
    obtain ⟨htakes, -, hpnumber⟩ := Instruction.generated_mem_origins hp
    obtain ⟨-, -, hqnumber⟩ := Instruction.generated_mem_origins hq
    have := hnumber htakes
    omega

namespace Origin

/-- What holds of the origins of the labels of a program with these functions. -/
def IsFit (functions : List String) : Origin → Prop
  | .function name => name ∈ functions
  | .label owner name =>
    (owner = "" → IsOrdinary name ∧ name ∉ functions) ∧ (owner ≠ "" → owner ∈ functions)
  | .generated stem number => stem ∈ Scope.stems ∧ 0 ≤ number

theorem symbol_outer (name : String) : (label "" name).symbol = name := rfl

theorem dollar_mem_symbol {owner : String} (h : owner ≠ "") (name : String) :
    '$' ∈ (label owner name).symbol.toList := by
  rw [symbol, Scope.toList_qualify h]
  simp

theorem symbol_generated (stem : String) {number : Int} (h : 0 ≤ number) :
    (generated stem number).symbol = stem ++ toString number.toNat := by
  obtain ⟨n, rfl⟩ := Int.eq_ofNat_of_zero_le h
  rfl

variable {functions : List String} {x y : Origin}

/-- The symbol of a function or of a generated label is not that of a label. -/
theorem symbol_ne_label (hfunctions : ∀ name ∈ functions, IsOrdinary name) (hx : x.IsFit functions)
    {owner name : String} (hy : (label owner name).IsFit functions)
    (hlabel : ∀ owner name, x ≠ label owner name) :
    x.symbol ≠ (label owner name).symbol := by
  have hdollar : '$' ∉ x.symbol.toList := by
    cases x with
    | function other => exact (hfunctions other hx).dollar
    | label other name => exact absurd rfl (hlabel other name)
    | generated stem number => exact Scope.dollar_notMem_numbered hx.1
  intro heq
  by_cases howner : owner = ""
  · -- a label outside of functions stands alone
    subst howner
    obtain ⟨hordinary, hnew⟩ := hy.1 rfl
    rw [symbol_outer] at heq
    cases x with
    | function other => exact hnew (heq ▸ hx)
    | label other name => exact hlabel other name rfl
    | generated stem number =>
      rw [symbol_generated stem hx.2] at heq
      exact hordinary.generated stem hx.1 _ heq.symm
  · rw [heq] at hdollar
    exact hdollar (dollar_mem_symbol howner name)

/-- The symbol of a function is not that of a generated label. -/
theorem symbol_ne_generated (hfunctions : ∀ name ∈ functions, IsOrdinary name) {name stem : String}
    {number : Int} (hx : name ∈ functions) (hy : (generated stem number).IsFit functions) :
    name ≠ (generated stem number).symbol := by
  rw [symbol_generated stem hy.2]
  exact (hfunctions name hx).generated stem hy.1 _

theorem label_inj (hfunctions : ∀ name ∈ functions, IsOrdinary name)
    {owner name owner' name' : String} (hx : (label owner name).IsFit functions)
    (hy : (label owner' name').IsFit functions)
    (h : (label owner name).symbol = (label owner' name').symbol) :
    owner = owner' ∧ name = name' := by
  -- the symbol of a label has a dollar sign if and only if it stands in a function
  by_cases howner : owner = ""
  · subst howner
    by_cases howner' : owner' = ""
    · subst howner'
      exact ⟨rfl, h⟩
    · have hdollar := dollar_mem_symbol howner' name'
      rw [← h, symbol_outer] at hdollar
      exact absurd hdollar (hx.1 rfl).1.dollar
  · by_cases howner' : owner' = ""
    · subst howner'
      have hdollar := dollar_mem_symbol howner name
      rw [h, symbol_outer] at hdollar
      exact absurd hdollar (hy.1 rfl).1.dollar
    · exact Scope.qualify_inj howner howner' (hfunctions _ (hx.2 howner)).dollar
        (hfunctions _ (hy.2 howner')).dollar h

/-- Labels with the same symbol have the same origin. -/
theorem symbol_inj (hfunctions : ∀ name ∈ functions, IsOrdinary name) (hx : x.IsFit functions)
    (hy : y.IsFit functions) (h : x.symbol = y.symbol) : x = y := by
  cases x with
  | function name =>
    cases y with
    | function other => exact congrArg function h
    | label other label => exact absurd h (symbol_ne_label hfunctions hx hy nofun)
    | generated stem number => exact absurd h (symbol_ne_generated hfunctions hx hy)
  | label owner name =>
    cases y with
    | label other label =>
      obtain ⟨rfl, rfl⟩ := label_inj hfunctions hx hy h
      rfl
    | _ => exact absurd h.symm (symbol_ne_label hfunctions hy hx nofun)
  | generated stem number =>
    cases y with
    | function other => exact absurd h.symm (symbol_ne_generated hfunctions hy hx)
    | label other label => exact absurd h (symbol_ne_label hfunctions hx hy nofun)
    | generated other label =>
      obtain ⟨rfl, hnumber⟩ := Scope.numbered_inj hx.1 hy.1 hx.2 hy.2 h
      exact congrArg (generated stem) hnumber

/-- No label of a program is predefined. -/
theorem predefined?_symbol (hfunctions : ∀ name ∈ functions, IsOrdinary name)
    (hx : x.IsFit functions) : MemoryMap.predefined? x.symbol = none := by
  cases x with
  | function name => exact (hfunctions name hx).predefined
  | label owner name =>
    by_cases howner : owner = ""
    · subst howner
      exact (hx.1 rfl).1.predefined
    · exact Scope.predefined?_qualify howner name
  | generated stem number => exact Scope.predefined?_numbered hx.1

end Origin

/-- The origins of the labels of a program are fit, if its names are. -/
theorem isFit_originsOf {program : List Placed} (h : Continues "" 0 program)
    (hnames : NamesAreFit program) :
    ∀ x ∈ originsOf program, x.IsFit (functionNames program) := by
  intro x hx
  obtain ⟨p, hp, hx⟩ := List.mem_flatMap.1 hx
  cases x with
  | function name => exact List.mem_filterMap.2 ⟨p, hp, Instruction.function_mem_origins hx⟩
  | label owner name =>
    obtain ⟨hname, rfl⟩ := Instruction.label_mem_origins hx
    refine ⟨fun howner => hnames.outer_ordinary name ?_, fun howner => ?_⟩
    · exact List.mem_filterMap.2 ⟨p, hp, by rw [hname, howner]; rfl⟩
    · exact (h.functionName p hp).resolve_left howner
  | generated stem number =>
    obtain ⟨-, hstem, rfl⟩ := Instruction.generated_mem_origins hx
    exact ⟨hstem, h.used_le p hp⟩

/-- The labels of a program are different from each other and from the predefined symbols, if its
names are fit. -/
theorem nodup_labels_codeOf {program : List Placed} (h : Continues "" 0 program)
    (hnames : NamesAreFit program) :
    (labels (codeOf program)).Nodup ∧
      ∀ name ∈ labels (codeOf program), MemoryMap.predefined? name = none := by
  have hfit := isFit_originsOf h hnames
  rw [labels_codeOf]
  refine ⟨(nodup_originsOf h hnames).map_on fun x hx y hy =>
    Origin.symbol_inj hnames.functions_ordinary (hfit x hx) (hfit y hy), fun name hname => ?_⟩
  obtain ⟨x, hx, rfl⟩ := List.mem_map.1 hname
  exact Origin.predefined?_symbol hnames.functions_ordinary (hfit x hx)

/-- The symbols that are generated for an instruction. -/
def Instruction.generates (s : Scope) : Instruction → List String
  | .start | .call .. => [s.numbered "RET_"]
  | .operation op => if op.isComparison then [s.numbered "TRUE_", s.numbered "END_"] else []
  | _ => []

/-- The code of an instruction refers to each symbol that is generated for it, and declares it. -/
theorem mem_of_mem_generates {p : Placed} {name : String}
    (h : name ∈ p.instruction.generates p.scope) :
    name ∈ symbols p.code ∧ name ∈ labels p.code := by
  rw [Placed.code, Instruction.labels_code]
  cases hi : p.instruction with
  | start | call =>
    rw [hi, Instruction.generates, List.mem_singleton] at h
    subst h
    exact ⟨by simp [Instruction.code, callCode], List.mem_singleton_self _⟩
  | operation op =>
    rw [hi] at h
    cases op with
    | eq | gt | lt =>
      refine ⟨?_, h⟩
      simp only [Instruction.generates, Operation.isComparison, if_true, List.mem_cons,
        List.not_mem_nil, or_false] at h
      rcases h with rfl | rfl <;> simp [Instruction.code, Operation.code, Code.compareCode]
    | _ => simp [Instruction.generates, Operation.isComparison] at h
  | _ =>
    rw [hi] at h
    cases h

/-- The labels in the lines of a compiled program are different from each other and from the
predefined symbols, if the names that the program gives are fit, so that the assembler finds no
label twice.  Each symbol that is generated for an instruction is declared once. -/
theorem labels_distinct {files : List SourceFile} {bootstrap comments : Bool} {text : List String}
    (hpaths : PathsAreProper files) (hcompile : compile files bootstrap comments = .ok text)
    (hnames : NamesAreFit (programOf files bootstrap)) :
    (declaredIn text).Nodup ∧
      (∀ name ∈ declaredIn text, MemoryMap.predefined? name = none) ∧
      (∀ name, assemble text ≠ .error (.duplicateLabel name)) ∧
      ∀ p ∈ programOf files bootstrap, ∀ name ∈ p.instruction.generates p.scope,
        name ∈ symbols p.code ∧ (declaredIn text).count name = 1 := by
  obtain ⟨-, hdeclared, hreads⟩ := readable_of_compile hpaths hcompile
  obtain ⟨hnodup, hnew⟩ := nodup_labels_codeOf (continues_programOf files bootstrap) hnames
  rw [hdeclared]
  refine ⟨hnodup, hnew, fun name hduplicate => ?_, fun p hp name hname => ?_⟩
  · unfold assemble at hduplicate
    cases hread : readStatements text with
    | error error =>
      rw [hread] at hduplicate
      injection hduplicate with hduplicate
      subst hduplicate
      exact readStatements_ne_duplicateLabel name hread
    | ok read =>
      -- what is read are the statements of the code, of which the labels are distinct
      obtain ⟨rfl, -⟩ := hreads read hread
      rw [← labels_map_reread] at hnodup hnew
      obtain ⟨words, hwords⟩ := exists_assembleStatements hnodup hnew
      rw [hread] at hduplicate
      exact absurd (hwords.symm.trans hduplicate) nofun
  · obtain ⟨huse, hmem⟩ := mem_of_mem_generates hname
    have hlabel : name ∈ labels (codeOf (programOf files bootstrap)) :=
      mem_labels.2 (List.mem_flatMap.2 ⟨p, hp, mem_labels.1 hmem⟩)
    exact ⟨huse, List.count_eq_one_of_mem hnodup hlabel⟩

/-- A unit that declares a label of one name outside of functions and in a function. -/
def labelUnit : SourceFile where
  path := Files.Path.ofText "A.vm"
  bytes := "label L\neq\nfunction A.f 0\nlabel L\ncall A.f 0\n".toUTF8

/-- Its instructions. -/
def labelProgram : List Placed :=
  let s : Scope := { unitName := "A" }
  let t : Scope := { s with labelsUsed := 1 }
  let f : Scope := { t with functionName := "A.f" }
  [⟨s, .label "L"⟩, ⟨s, .operation .eq⟩, ⟨t, .function "A.f" 0⟩, ⟨f, .label "L"⟩,
    ⟨f, .call "A.f" 0⟩]

theorem labels_distinct_labelUnit :
    ∃ text, compile [labelUnit] false false = .ok text ∧
      declaredIn text = ["L", "TRUE_0", "END_0", "A.f", "A.f$L", "RET_1"] ∧
      (declaredIn text).Nodup ∧ (declaredIn text).count "RET_1" = 1 ∧
      ∀ name, assemble text ≠ .error (.duplicateLabel name) := by
  have hsome : (compile [labelUnit] false false).toOption.isSome = true := by decide +kernel
  obtain ⟨text, htext⟩ := Option.isSome_iff_exists.1 hsome
  have hcompile := Except.toOption_eq_some htext
  have hpaths : PathsAreProper [labelUnit] :=
    pathsAreProper_of_text fun file hfile => ⟨"A.vm", List.mem_singleton.1 hfile ▸ rfl⟩
  have hprogram : programOf [labelUnit] false = labelProgram := by decide +kernel
  have hordinary {name : String} (hname : name ∈ ["A.f", "L"]) : IsOrdinary name := by
    simp only [List.mem_cons, List.not_mem_nil, or_false] at hname
    rcases hname with rfl | rfl
    · exact isOrdinary_of_notMem (by decide) (by decide) (by decide)
    · exact isOrdinary_of_notMem (by decide) (by decide) (by decide)
  have hnames : NamesAreFit (programOf [labelUnit] false) := by
    rw [hprogram]
    have hfunctions : functionNames labelProgram = ["A.f"] := rfl
    have hlabels : labelNames labelProgram = [("", "L"), ("A.f", "L")] := rfl
    refine ⟨by decide, fun name hname => hordinary ?_, by decide, fun name hname => ?_⟩
    · rw [hfunctions] at hname
      exact List.mem_cons.2 (.inl (List.mem_singleton.1 hname))
    · have hL : name = "L" := by simpa [hlabels] using hname
      subst hL
      exact ⟨hordinary (by simp), by decide⟩
  obtain ⟨hnodup, -, hassemble, honce⟩ := labels_distinct hpaths hcompile hnames
  have hdeclared : declaredIn text = ["L", "TRUE_0", "END_0", "A.f", "A.f$L", "RET_1"] := by
    rw [(readable_of_compile hpaths hcompile).2.1, hprogram]
    decide +kernel
  rw [hprogram] at honce
  have hcall : (⟨{ unitName := "A", functionName := "A.f", labelsUsed := 1 }, .call "A.f" 0⟩ :
      Placed) ∈ labelProgram := by
    decide
  exact ⟨text, hcompile, hdeclared, hnodup, (honce _ hcall "RET_1" (by decide)).2, hassemble⟩

end HackToolchain.VM
