import HackToolchain.Proofs.VM.Symbols

/-!
# Literals in the code

Which numbers the code of a program loads, and which of these the assembler takes.  The index into
an area is checked before code is emitted for it, so that a constant or the address of a cell of
`temp` always fits an instruction.  The distance of a cell from a base and the size of a frame with
its arguments are not checked (`Instruction.unchecked?`).

* `Instruction.literals_code`: the numbers in the code of an instruction;
* `isInArea_of_compile`: whatever is compiled, indexes into areas are in range;
* `literals_fit_iff`: the assembler takes all literals in the lines of a program if and only if all
  numbers that are not checked fit an instruction.
-/

namespace HackToolchain.VM

open Asm Text Code

/-! ### The numbers in the code of an instruction -/

/-- The number that a statement loads. -/
def literal? : Statement → Option Int
  | .address (.literal n) => some n
  | _ => none

/-- The numbers that code loads, in order. -/
def literals (code : List Statement) : List Int :=
  code.filterMap literal?

theorem mem_literals {n : Int} {code : List Statement} :
    n ∈ literals code ↔ Statement.address (.literal n) ∈ code := by
  rw [literals, List.mem_filterMap]
  constructor
  · rintro ⟨x, hx, hn⟩
    unfold literal? at hn
    split at hn
    · injection hn with hn
      rwa [← hn]
    · cases hn
  · intro h
    exact ⟨_, h, rfl⟩

namespace Segment

/-- The numbers in the code that accesses a cell of a segment. -/
def literals (index : Int) : Segment → List Int
  | .constant | .local | .argument | .this | .that => [index]
  | .temp => [MemoryMap.tempBase + index]
  | .pointer | .static => []

/-- The area whose cells or constants a segment names, if it has no base and no symbols. -/
def area? : Segment → Option Area
  | .constant => some .constant
  | .temp => some .temp
  | .pointer => some .pointer
  | _ => none

/-- The index is in range, if the segment names an area. -/
def IsInArea (segment : Segment) (index : Int) : Prop :=
  ∀ area ∈ segment.area?, 0 ≤ index ∧ index ≤ area.last

/-- A number fits an instruction, unless it is an index from a base. -/
theorem literal_fits {segment : Segment} {index n : Int} (hindex : 0 ≤ index)
    (harea : segment.IsInArea index) (h : n ∈ segment.literals index) :
    0 ≤ n ∧ (n ∈ segment.base?.map (fun _ => index) ∨ n ≤ MemoryMap.maxAddress) := by
  cases segment with
  | constant =>
    obtain rfl := List.mem_singleton.1 h
    exact ⟨hindex, .inr (harea .constant rfl).2⟩
  | «local» | argument | this | that =>
    obtain rfl := List.mem_singleton.1 h
    exact ⟨hindex, .inl rfl⟩
  | temp =>
    obtain rfl := List.mem_singleton.1 h
    have hlast := (harea .temp rfl).2
    have htemp : Area.temp.last = 7 := rfl
    have hbase : MemoryMap.tempBase = 5 := rfl
    have hmax : MemoryMap.maxAddress = 32767 := rfl
    exact ⟨by omega, .inr (by omega)⟩
  | pointer | static => cases h

end Segment

namespace Instruction

/-- The numbers in the code of an instruction. -/
def literals : Instruction → List Int
  | .start => [MemoryMap.stackBase, frameCells]
  | .push segment index | .pop segment index => segment.literals index
  | .call _ arguments => [frameCells + arguments]
  | .ret => [frameCells, 1, 2, 3, 4]
  | _ => []

theorem literals_code (s : Scope) {i : Instruction} (hi : i.IsLegal) :
    VM.literals (i.code s) = i.literals := by
  cases i with
  | operation op => cases op <;> rfl
  | push segment index => cases segment <;> rfl
  | pop segment index =>
    cases segment with
    | constant => exact absurd rfl (hi index)
    | _ => rfl
  | function name locals => exact filterMap_flatten_replicate rfl _
  | _ => rfl

/-- The index in an instruction is in range, if its segment names an area. -/
def IsInArea : Instruction → Prop
  | .push segment index | .pop segment index => segment.IsInArea index
  | _ => True

/-- The number in the code of an instruction that nothing checks: an index from the base of a
segment, or the size of a frame with the arguments below it. -/
def unchecked? : Instruction → Option Int
  | .push segment index | .pop segment index => segment.base?.map fun _ => index
  | .call _ arguments => some (frameCells + arguments)
  | _ => none

variable {i : Instruction} {n : Int}

theorem mem_literals_of_unchecked (h : n ∈ i.unchecked?) : n ∈ i.literals := by
  cases i with
  | push segment index | pop segment index =>
    cases segment <;> cases h <;> exact List.mem_singleton_self _
  | call name arguments =>
    cases h
    exact List.mem_singleton_self _
  | _ => cases h

/-- A number is not negative, and it fits an instruction unless it is one that nothing checks. -/
theorem literal_fits (harea : i.IsInArea) (hcount : i.IsCounted) (h : n ∈ i.literals) :
    0 ≤ n ∧ (n ∈ i.unchecked? ∨ n ≤ MemoryMap.maxAddress) := by
  cases i with
  | push segment index | pop segment index =>
    exact Segment.literal_fits (hcount index rfl) harea h
  | call name arguments =>
    obtain rfl := List.mem_singleton.1 h
    have hframe : frameCells = 5 := rfl
    have harguments : 0 ≤ arguments := hcount arguments rfl
    exact ⟨by omega, .inl rfl⟩
  | start =>
    have hall : ∀ n ∈ literals start, 0 ≤ n ∧ n ≤ MemoryMap.maxAddress := by decide
    exact ⟨(hall n h).1, .inr (hall n h).2⟩
  | ret =>
    have hall : ∀ n ∈ literals ret, 0 ≤ n ∧ n ≤ MemoryMap.maxAddress := by decide
    exact ⟨(hall n h).1, .inr (hall n h).2⟩
  | _ => cases h

end Instruction

/-! ### Indexes that have been checked -/

namespace Emitter

variable {s s' : Scope} {lines : List Line} {u : Unit}

theorem isInArea_of_push {segment : Segment} {index : Int}
    (h : push segment index s = ⟨lines, s', .ok u⟩) : segment.IsInArea index := by
  intro area harea
  cases segment with
  | constant =>
    cases harea
    simp only [push, bind_eq, andThen_eq_ok_iff] at h
    obtain ⟨_, _, _, _, hcheck, -⟩ := h
    exact (checkIndex_eq_ok hcheck).2.2
  | temp | pointer =>
    cases harea
    simp only [push, Segment.base?, knownAddress, bind_eq, andThen_eq_ok_iff] at h
    obtain ⟨_, _, _, _, ⟨_, _, _, _, hcheck, -⟩, -⟩ := h
    exact (checkIndex_eq_ok hcheck).2.2
  | _ => cases harea

theorem isInArea_of_pop {segment : Segment} {index : Int}
    (h : pop segment index s = ⟨lines, s', .ok u⟩) : segment.IsInArea index := by
  intro area harea
  cases segment with
  | constant => exact absurd rfl (pop_eq_ok h).1
  | temp | pointer =>
    cases harea
    simp only [pop, Segment.base?, knownAddress, bind_eq, andThen_eq_ok_iff] at h
    obtain ⟨_, _, _, _, ⟨_, _, _, _, hcheck, -⟩, -⟩ := h
    exact (checkIndex_eq_ok hcheck).2.2
  | _ => cases harea

/-- If code is emitted for a command, its index has been checked. -/
theorem isInArea_of_plainCommand {c : Command} (h : plainCommand c s = ⟨lines, s', .ok u⟩)
    {i : Instruction} (hi : Instruction.ofCommand? c = some i) : i.IsInArea := by
  unfold plainCommand at h
  unfold Instruction.ofCommand? at hi
  -- only the two memory commands check an index
  cases hkind : c.kind with
  | arithmetic | label | goto | ifGoto =>
    simp only [hkind, Option.map_eq_some_iff] at hi
    obtain ⟨_, -, rfl⟩ := hi
    trivial
  | push | pop =>
    simp only [hkind, access, bind_eq, andThen_eq_ok_iff] at h
    obtain ⟨_, _, name, _, ha, ⟨_, _, n, _, hc, ⟨_, _, seg, _, hs, haccess, -⟩, -⟩, -⟩ := h
    obtain ⟨-, -, harg⟩ := argumentOf_eq_ok ha
    obtain ⟨-, -, hcount⟩ := countOf_eq_ok hc
    obtain ⟨-, -, hseg⟩ := segment_eq_ok hs
    simp only [hkind, harg, hcount, hseg, Except.toOption, Option.bind_eq_bind, Option.bind_some,
      Option.pure_def, Option.some.injEq] at hi
    subst hi
    first
      | exact isInArea_of_push haccess
      | exact isInArea_of_pop haccess
  | function | call =>
    simp only [hkind, Option.bind_eq_bind, Option.bind_eq_some_iff, Option.pure_def,
      Option.some.injEq] at hi
    obtain ⟨_, -, _, -, rfl⟩ := hi
    trivial
  | ret =>
    simp only [hkind, Option.some.injEq] at hi
    subst hi
    trivial

end Emitter

namespace Generator

variable {g g' : Generator}

theorem exists_plainCommand_of_addCommands {cs : List Command}
    (h : g.addCommands cs = (.ok (), g')) {c : Command} (hc : c ∈ cs) :
    ∃ s lines s', Emitter.plainCommand c s = ⟨lines, s', .ok ()⟩ := by
  induction cs generalizing g with
  | nil => cases hc
  | cons first cs ih =>
    unfold addCommands at h
    rcases hadd : g.addCommand first with ⟨error | _, g''⟩
    · rw [hadd] at h
      cases h
    · rw [hadd] at h
      rcases List.mem_cons.1 hc with rfl | hc
      · obtain ⟨lines, hx, -⟩ := add_eq_ok hadd
        simp only [Emitter.command, Emitter.bind_eq, Emitter.andThen_eq_ok_iff] at hx
        obtain ⟨_, s, _, lines, -, hplain, -⟩ := hx
        exact ⟨s, lines, _, hplain⟩
      · exact ih h hc

theorem exists_plainCommand_of_addFile {file : SourceFile} (h : g.addFile file = .ok g')
    {c : Command} (hc : c ∈ file.commands) :
    ∃ s lines s', Emitter.plainCommand c s = ⟨lines, s', .ok ()⟩ :=
  exists_plainCommand_of_addCommands (addCommands_of_addFile h).2 hc

theorem exists_plainCommand_of_addFiles {files : List SourceFile} (h : g.addFiles files = .ok g')
    {file : SourceFile} (hfile : file ∈ files) {c : Command} (hc : c ∈ file.commands) :
    ∃ s lines s', Emitter.plainCommand c s = ⟨lines, s', .ok ()⟩ := by
  induction files generalizing g with
  | nil => cases hfile
  | cons first files ih =>
    unfold addFiles at h
    cases hadd : g.addFile first with
    | error error =>
      rw [hadd] at h
      cases h
    | ok g'' =>
      rw [hadd] at h
      rcases List.mem_cons.1 hfile with rfl | hfile
      · exact exists_plainCommand_of_addFile hadd hc
      · exact ih h hfile

end Generator

/-- Whatever is compiled, code has been emitted for every command of its files. -/
theorem exists_plainCommand_of_compile {files : List SourceFile} {bootstrap comments : Bool}
    {text : List String} (h : compile files bootstrap comments = .ok text) {file : SourceFile}
    (hfile : file ∈ files) {c : Command} (hc : c ∈ file.commands) :
    ∃ s lines s', Emitter.plainCommand c s = ⟨lines, s', .ok ()⟩ := by
  unfold compile at h
  have hstarted : ∃ g : Generator, (g.addFiles files).map Generator.lines = .ok text := by
    cases bootstrap with
    | false => exact ⟨_, h⟩
    | true =>
      rcases hadd : ({ comments } : Generator).addStart with ⟨error | _, g⟩
      · simp only [hadd, if_true] at h
        cases h
      · simp only [hadd, if_true] at h
        exact ⟨g, h⟩
  obtain ⟨g, hlines⟩ := hstarted
  obtain ⟨g', hfiles, -⟩ := Except.map_eq_ok hlines
  exact Generator.exists_plainCommand_of_addFiles hfiles hfile hc

theorem instruction_mem_of_mem_layOut {s : Scope} {is : List Instruction} {p : Placed}
    (hp : p ∈ layOut s is) : p.instruction ∈ is := by
  induction is generalizing s with
  | nil => cases hp
  | cons i is ih =>
    rcases List.mem_cons.1 hp with rfl | hp
    · exact List.mem_cons_self
    · exact List.mem_cons_of_mem _ (ih hp)

theorem instruction_mem_of_mem_layOutFiles {s : Scope} {files : List SourceFile} {p : Placed}
    (hp : p ∈ layOutFiles s files) : ∃ file ∈ files, p.instruction ∈ file.instructions := by
  induction files generalizing s with
  | nil => cases hp
  | cons file files ih =>
    rcases List.mem_append.1 hp with hp | hp
    · exact ⟨file, List.mem_cons_self, instruction_mem_of_mem_layOut hp⟩
    · obtain ⟨f, hf, hmem⟩ := ih hp
      exact ⟨f, List.mem_cons_of_mem _ hf, hmem⟩

/-- An instruction of a program is one of a file, unless it starts the program. -/
theorem instruction_mem_of_mem_programOf {files : List SourceFile} {bootstrap : Bool} {p : Placed}
    (hp : p ∈ programOf files bootstrap) :
    p.instruction = .start ∨ ∃ file ∈ files, p.instruction ∈ file.instructions := by
  rcases List.mem_append.1 hp with hp | hp
  · have hstart := instruction_mem_of_mem_layOut hp
    cases bootstrap with
    | false => cases hstart
    | true => exact .inl (List.mem_singleton.1 hstart)
  · exact .inr (instruction_mem_of_mem_layOutFiles hp)

/-- Whatever is compiled, indexes into areas are in range. -/
theorem isInArea_of_compile {files : List SourceFile} {bootstrap comments : Bool}
    {text : List String} (h : compile files bootstrap comments = .ok text) {p : Placed}
    (hp : p ∈ programOf files bootstrap) : p.instruction.IsInArea := by
  rcases instruction_mem_of_mem_programOf hp with hstart | ⟨file, hfile, hmem⟩
  · rw [hstart]
    trivial
  · obtain ⟨c, hc, hread⟩ := List.mem_filterMap.1 hmem
    obtain ⟨s, lines, s', hplain⟩ := exists_plainCommand_of_compile h hfile hc
    exact Emitter.isInArea_of_plainCommand hplain hread

/-! ### Symbols of digits -/

namespace Scope

variable {s : Scope}

theorem isDigits_numbered {stem : String} (hstem : stem ∈ stems) :
    isDigits (s.numbered stem).toList = false := by
  obtain ⟨front, hfront, -⟩ := exists_toList_stem hstem
  have hmark : isDigit '_' = false := isDigit_of_not_asciiDigit (by decide) (by decide)
  apply isDigits_eq_false hmark
  rw [numbered, String.toList_append, hfront]
  simp

theorem isDigits_qualify {label : String} (hlabel : isDigits label.toList = false) :
    isDigits (s.qualify label).toList = false := by
  by_cases hs : s.functionName = ""
  · rwa [qualify, if_pos (by rwa [String.isEmpty_iff])]
  · have hmark : isDigit '$' = false := isDigit_of_not_asciiDigit (by decide) (by decide)
    apply isDigits_eq_false hmark
    rw [toList_qualify hs]
    simp

end Scope

/-- The symbols in the code of an instruction do not consist of digits, if the name in it does
not. -/
theorem Instruction.isDigits_uses (s : Scope) {i : Instruction}
    (hname : ∀ name ∈ i.name?, isDigits name.toList = false) :
    ∀ name ∈ i.uses s, isDigits name.toList = false := by
  -- a generated label and another symbol
  have hpair {stem other : String} (hstem : stem ∈ Scope.stems)
      (hother : isDigits other.toList = false) :
      ∀ name ∈ [s.numbered stem, other], isDigits name.toList = false := by
    intro name hmem
    simp only [List.mem_cons, List.not_mem_nil, or_false] at hmem
    rcases hmem with rfl | rfl
    · exact Scope.isDigits_numbered hstem
    · exact hother
  intro name hmem
  cases i with
  | start =>
    have hfirst : isDigits Emitter.firstFunction.toList = false := by decide +kernel
    exact hpair (by decide) hfirst name hmem
  | call callee arguments => exact hpair (by decide) (hname callee rfl) name hmem
  | operation op =>
    rw [uses] at hmem
    split at hmem
    · exact hpair (by decide) (Scope.isDigits_numbered (by decide)) name hmem
    · cases hmem
  | push segment index | pop segment index =>
    cases segment with
    | static =>
      obtain rfl := List.mem_singleton.1 hmem
      exact s.isDigits_staticSymbol index
    | _ => cases hmem
  | goto label | ifGoto label =>
    obtain rfl := List.mem_singleton.1 hmem
    exact Scope.isDigits_qualify (hname label rfl)
  | _ => cases hmem

/-- Neither do the symbols in the code of a program, if no name in it does. -/
theorem isDigits_symbols_codeOf {program : List Placed}
    (hwell : ∀ p ∈ program, p.IsWellFormed)
    (hnames : ∀ p ∈ program, ∀ name ∈ p.instruction.name?, isDigits name.toList = false) :
    ∀ name ∈ symbols (codeOf program), isDigits name.toList = false := by
  intro name hname
  obtain ⟨p, hp, hmem⟩ := List.mem_flatMap.1 (mem_symbols.1 hname)
  by_contra hdigits
  rw [Bool.not_eq_false] at hdigits
  have hcell (cell : Cell) : isDigits cell.symbol.toList = false := by
    cases cell <;> decide +kernel
  -- the symbols of register cells are no digits either, so that nothing else is dropped
  have hfilter := Instruction.filter_symbols_code (p := fun name => isDigits name.toList) hcell
    p.scope (hwell p hp).isLegal
  have hkept : name ∈ (symbols p.code).filter fun name => isDigits name.toList :=
    List.mem_filter.2 ⟨mem_symbols.2 hmem, hdigits⟩
  rw [Placed.code, hfilter] at hkept
  have huses := Instruction.isDigits_uses p.scope (hnames p hp) name (List.mem_filter.1 hkept).1
  rw [hdigits] at huses
  contradiction

/-! ### Lines -/

/-- The line is an at sign and digits. -/
def isLiteralLine (line : String) : Bool :=
  match line.toList with
  | '@' :: cs => isDigits cs
  | _ => false

theorem isLiteralLine_literal {n : Int} (hn : 0 ≤ n) :
    isLiteralLine (Statement.address (.literal n)).text = true := by
  obtain ⟨n, rfl⟩ := Int.eq_ofNat_of_zero_le hn
  rw [isLiteralLine, Statement.toList_text_address]
  exact isDigits_toString_natCast n

theorem text_mem_of_mem_literals {lines : List Line} {n : Int}
    (h : n ∈ literals (statementsOf lines)) :
    (Statement.address (.literal n)).text ∈ lines.map Line.text := by
  obtain ⟨line, hline, hx⟩ := List.mem_filterMap.1 (mem_literals.1 h)
  cases line with
  | comment text => cases hx
  | statement x =>
    injection hx with hx
    subst hx
    exact List.mem_map_of_mem hline

/-- Of the lines of a program whose symbols do not consist of digits, those that do are literals. -/
theorem exists_literal_of_isLiteralLine {lines : List Line}
    (hsymbols : ∀ name ∈ symbols (statementsOf lines), isDigits name.toList = false) {line : Line}
    (hmem : line ∈ lines) (h : isLiteralLine line.text = true) :
    ∃ n ∈ literals (statementsOf lines), line.text = (Statement.address (.literal n)).text := by
  cases line with
  | comment text =>
    rw [isLiteralLine, Line.toList_text_comment] at h
    cases h
  | statement x =>
    have hx : x ∈ statementsOf lines := List.mem_filterMap.2 ⟨_, hmem, rfl⟩
    cases x with
    | address a =>
      cases a with
      | literal n => exact ⟨n, mem_literals.2 hx, rfl⟩
      | symbol name =>
        rw [Line.text, isLiteralLine, Statement.toList_text_address] at h
        -- a symbol that is no numeral does not look like one
        have hname : name ∈ symbols (statementsOf lines) := mem_symbols.2 hx
        exact absurd h (by simp [Address.text, hsymbols name hname])
    | label name =>
      rw [Line.text, isLiteralLine, Statement.toList_text_label] at h
      cases h
    | compute k =>
      obtain ⟨c, cs, htext, hat, -⟩ := k.exists_text_eq_cons
      rw [Line.text, isLiteralLine, Statement.text, htext] at h
      split at h
      · rename_i heq
        injection heq with heq
        exact absurd heq hat
      · cases h

/-! ### Programs -/

/-- The assembler takes the literals in the lines of a program, whatever the numbers of the lines,
if and only if the numbers that nothing checks fit an instruction: the indexes from a base and the
sizes of the frames with their arguments.  No name in the program consists of digits. -/
theorem literals_fit_iff {files : List SourceFile} {bootstrap comments : Bool} {text : List String}
    (h : compile files bootstrap comments = .ok text)
    (hnames : ∀ p ∈ programOf files bootstrap, ∀ name ∈ p.instruction.name?,
      isDigits name.toList = false) :
    (∀ line ∈ text, isLiteralLine line = true → ∃ n : Nat, n ≤ MemoryMap.maxAddress ∧
        line = "@" ++ toString n ∧
        ∀ number, Statement.read number line = .ok (some (.address (.literal n)))) ↔
      ∀ p ∈ programOf files bootstrap, ∀ n ∈ p.instruction.unchecked?,
        n ≤ MemoryMap.maxAddress := by
  obtain ⟨hlegal, lines, rfl, hcode, -⟩ := compile_eq_ok h
  have hwell : ∀ p ∈ programOf files bootstrap, p.IsWellFormed := isWellFormed_programOf hlegal
  have hmem (n : Int) : n ∈ literals (statementsOf lines) ↔
      ∃ p ∈ programOf files bootstrap, n ∈ p.instruction.literals := by
    rw [hcode, mem_literals, codeOf, List.mem_flatMap]
    constructor
    · rintro ⟨p, hp, hn⟩
      rw [Placed.code, ← mem_literals, Instruction.literals_code _ (hwell p hp).isLegal] at hn
      exact ⟨p, hp, hn⟩
    · rintro ⟨p, hp, hn⟩
      refine ⟨p, hp, ?_⟩
      rwa [Placed.code, ← mem_literals, Instruction.literals_code _ (hwell p hp).isLegal]
  constructor
  · -- the line of an unchecked literal is read, so that the literal fits
    intro htaken p hp n hn
    have hliteral := Instruction.mem_literals_of_unchecked hn
    obtain ⟨hnonneg, -⟩ := Instruction.literal_fits (isInArea_of_compile h hp)
      (hwell p hp).isCounted hliteral
    have hline := text_mem_of_mem_literals ((hmem n).2 ⟨p, hp, hliteral⟩)
    obtain ⟨m, -, -, hread⟩ := htaken _ hline (isLiteralLine_literal hnonneg)
    have hread := hread 1
    rw [Statement.read_address (a := .literal n) trivial] at hread
    obtain ⟨a, ha, -⟩ := Except.map_eq_ok hread
    exact (Address.read_literal ha).2.2
  · -- a line that looks like a literal is one, since no symbol looks so
    intro hfit line hline hdigits
    obtain ⟨x, hx, rfl⟩ := List.mem_map.1 hline
    have hsymbols := isDigits_symbols_codeOf hwell hnames
    rw [← hcode] at hsymbols
    obtain ⟨n, hn, htext⟩ := exists_literal_of_isLiteralLine hsymbols hx hdigits
    obtain ⟨p, hp, hliteral⟩ := (hmem n).1 hn
    obtain ⟨hnonneg, hunchecked⟩ := Instruction.literal_fits (isInArea_of_compile h hp)
      (hwell p hp).isCounted hliteral
    have hle : n ≤ MemoryMap.maxAddress := hunchecked.elim (hfit p hp n) id
    obtain ⟨n, rfl⟩ := Int.eq_ofNat_of_zero_le hnonneg
    have hle : n ≤ MemoryMap.maxAddress := Int.ofNat_le.1 hle
    refine ⟨n, hle, htext, fun number => ?_⟩
    rw [htext]
    exact Statement.read_literal number hle

/-- A unit with the given source text. -/
def unitOf (source : String) : SourceFile where
  path := Files.Path.ofText "A.vm"
  bytes := source.toUTF8

/-- A unit with a cell near its base and a call with two arguments. -/
def nearUnit : SourceFile :=
  unitOf "function A.f 0\npush local 3\ncall A.f 2\n"

theorem literals_fit_iff_nearUnit :
    ∃ text, compile [nearUnit] false false = .ok text ∧ "@3" ∈ text ∧ "@7" ∈ text ∧
      ∀ line ∈ text, isLiteralLine line = true → ∃ n : Nat, n ≤ MemoryMap.maxAddress ∧
        line = "@" ++ toString n ∧
        ∀ number, Statement.read number line = .ok (some (.address (.literal n))) := by
  have hsome : (compile [nearUnit] false false).toOption.isSome = true := by decide +kernel
  obtain ⟨text, htext⟩ := Option.isSome_iff_exists.1 hsome
  have hcompile := Except.toOption_eq_some htext
  have hlines : ∀ text ∈ (compile [nearUnit] false false).toOption, "@3" ∈ text ∧ "@7" ∈ text := by
    decide +kernel
  have hnames : ∀ p ∈ programOf [nearUnit] false, ∀ name ∈ p.instruction.name?,
      isDigits name.toList = false := by
    decide +kernel
  have hfit : ∀ p ∈ programOf [nearUnit] false, ∀ n ∈ p.instruction.unchecked?,
      n ≤ MemoryMap.maxAddress := by
    decide +kernel
  obtain ⟨hnear, hframe⟩ := hlines text htext
  exact ⟨text, hcompile, hnear, hframe, (literals_fit_iff hcompile hnames).2 hfit⟩

/-- The index from a base gets into the code although the assembler does not take it, while a
constant of the same size is an error at its line. -/
theorem farIndex_not_taken :
    compile [unitOf "push local 32768\n"] false false =
        .ok ["@32768", "D=A", "@LCL", "A=D+M", "D=M", "@SP", "A=M", "M=D", "@SP", "M=M+1"] ∧
      (∀ p ∈ programOf [unitOf "push local 32768\n"] false, p.instruction.name? = none) ∧
      isLiteralLine "@32768" = true ∧
      Statement.read 1 "@32768" = .error (.line (.literal "32768") 1) ∧
      compile [unitOf "push constant 32768\n"] false false =
        .error (.located "A.vm" 1 (.index .constant "32768")) := by
  decide +kernel

end HackToolchain.VM
