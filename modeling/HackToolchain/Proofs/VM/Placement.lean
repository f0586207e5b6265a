import HackToolchain.Proofs.Files.Path
import HackToolchain.Proofs.Machine.Assembled
import HackToolchain.Proofs.VM.Symbols
import HackToolchain.Proofs.VM.StackMachine

/-!
# Where a program stands

The code of a program, once it has been compiled and assembled, stands in the program memory, and
the addresses that its instructions refer to can be told from the program alone: a label stands for
the number of words before it (`labelAddress?`), and a static variable for a cell that depends on
the order in which the program mentions its static variables (`staticNames`).

* `built_of_compile`: the code of a program that is compiled and assembled is loaded;
* `loaded_at`: so is the code of each instruction, from its first word on;
* `loaded_block`: the code of a single instruction is loaded even if the program as a whole does not
  fit the program memory;
* `Built.address_label`, `Built.address_static`: the addresses of labels and static variables are
  those of `addressIn`, if all targets of jumps are labels and no static variable is.
-/

namespace HackToolchain.VM

open Asm Machine Code Text

/-! ### The place of an instruction -/

theorem startOf_succ {program : List Placed} {k : Nat} {p : Placed} (hp : program[k]? = some p) :
    startOf program (k + 1) = startOf program k + wordCount p.code := by
  rw [startOf, List.take_add_one, hp, codeOf_append, wordCount_append, startOf]
  simp

theorem startOf_mono (program : List Placed) {j k : Nat} (h : j ≤ k) :
    startOf program j ≤ startOf program k := by
  obtain ⟨d, rfl⟩ := Nat.exists_eq_add_of_le h
  rw [startOf, startOf, List.take_add, codeOf_append, wordCount_append]
  exact Nat.le_add_right _ _

/-- A program around one of its instructions. -/
theorem codeOf_split {program : List Placed} {k : Nat} {p : Placed} (hp : program[k]? = some p) :
    codeOf program = codeOf (program.take k) ++ (p.code ++ codeOf (program.drop (k + 1))) := by
  obtain ⟨hk, rfl⟩ := List.getElem?_eq_some_iff.1 hp
  rw [← codeOf_cons, ← codeOf_append, ← List.drop_eq_getElem_cons hk, List.take_append_drop]

/-- The code of each instruction of a loaded program is loaded. -/
theorem loaded_at {c : Computer} {σ : Layout} {program : List Placed} {k : Nat}
    {p : Placed} (hl : Loaded c σ 0 (codeOf program)) (hp : program[k]? = some p) :
    Loaded c σ (startOf program k) p.code := by
  rw [codeOf_split hp, Loaded.append_iff, Loaded.append_iff, Nat.zero_add] at hl
  exact hl.2.1

/-- The code of an instruction of an assembled program is loaded if the symbols in it have addresses
that fit an instruction, even if the program as a whole does not fit the program memory. -/
theorem loaded_block {c : Computer} {program : List Placed} {k : Nat} {p : Placed}
    (hreadable : ∀ x ∈ codeOf program, x.IsReadable)
    (hcode : assembleStatements ((codeOf program).map Statement.reread) = .ok c.rom)
    (hp : program[k]? = some p)
    (haddress : ∀ name ∈ symbols p.code, (Layout.ofCode (codeOf program)).address name < 0x8000) :
    Loaded c (.ofCode (codeOf program)) (startOf program k) p.code := by
  obtain ⟨hwords, -, -⟩ := assembleStatements_eq_ok hcode
  rw [List.filterMap_map] at hwords
  -- what becomes of a statement, rereading included
  generalize hword : Statement.word? (symbolAddress ((codeOf program).map Statement.reread)) ∘
    Statement.reread = word? at hwords
  have hsplit := codeOf_split hp
  have hfront : ((codeOf (program.take k)).filterMap word?).length = startOf program k := by
    rw [← hword, ← List.filterMap_map, length_filterMap_word? (isSome_word? _),
      wordCount_map_reread]
    rfl
  have hnone : ∀ name, word? (.label name) = none := by
    rw [← hword]
    exact fun _ => rfl
  have hcompute : ∀ k, word? (.compute k) = some (k.encode : Int) := by
    rw [← hword]
    exact fun _ => rfl
  rw [← hfront]
  refine Loaded.of_filterMap word? _ (fun xs name ys heq => ?_) hnone (fun x hx => ?_) hcompute ?_
  · have hplace : codeOf program = (codeOf (program.take k) ++ xs) ++
        .label name :: (ys ++ codeOf (program.drop (k + 1))) := by
      rw [hsplit, heq]
      simp
    rw [hfront, startOf, ← wordCount_append]
    exact Layout.address_of_label hreadable hcode hplace
  · have hmem : .address x ∈ codeOf program := by
      rw [hsplit]
      exact List.mem_append_right _ (List.mem_append_left _ hx)
    rw [← hword]
    refine exists_word_of_address (hreadable _ hmem) fun name heq => haddress name ?_
    rw [heq] at hx
    exact mem_symbols.2 hx
  · rw [hwords, hsplit, List.filterMap_append, List.filterMap_append, ← List.append_assoc]
    exact List.prefix_append _ _

/-- A label in the code of an instruction stands no further than behind that code. -/
theorem address_le_startOf {program : List Placed} {words : Array Int} {k : Nat} {p : Placed}
    {name : String} (hreadable : ∀ x ∈ codeOf program, x.IsReadable)
    (hcode : assembleStatements ((codeOf program).map Statement.reread) = .ok words)
    (hp : program[k]? = some p) (hname : name ∈ labels p.code) :
    (Layout.ofCode (codeOf program)).address name ≤ startOf program (k + 1) := by
  obtain ⟨xs, ys, hxs⟩ := List.append_of_mem (mem_labels.1 hname)
  have hplace : codeOf program = (codeOf (program.take k) ++ xs) ++
      .label name :: (ys ++ codeOf (program.drop (k + 1))) := by
    rw [codeOf_split hp, hxs]
    simp
  rw [Layout.address_of_label hreadable hcode hplace, startOf_succ hp, hxs, startOf]
  simp only [wordCount_append]
  omega

/-- No label stands between two instructions that follow each other immediately. -/
theorem wordCount_ne_of_label {xs ys us vs : List Statement} {name : String} {x y : Statement}
    (hx : x.isInstruction = true) (hy : y.isInstruction = true)
    (h : xs ++ .label name :: ys = us ++ x :: y :: vs) : wordCount xs ≠ wordCount us + 1 := by
  have hcount (zs : List Statement) (z : Statement) (hz : z.isInstruction = true) :
      wordCount (z :: zs) = wordCount zs + 1 := List.countP_cons_of_pos hz
  rcases List.append_eq_append_iff.1 h with ⟨as, hus, hlabel⟩ | ⟨as, hxs, hlabel⟩
  · -- the label comes first
    rw [hus, wordCount_append]
    omega
  · -- the two instructions come first, or the label would stand between them
    rw [hxs, wordCount_append]
    cases as with
    | nil =>
      injection hlabel with hlabel
      subst hlabel
      contradiction
    | cons a as =>
      injection hlabel with ha hlabel
      subst ha
      rw [hcount as x hx]
      cases as with
      | nil =>
        injection hlabel with hlabel
        subst hlabel
        contradiction
      | cons b as =>
        injection hlabel with hb hlabel
        subst hb
        rw [hcount as y hy]
        omega

/-! ### Labels in the text -/

/-- The name in a line that declares a label. -/
def declared? (line : String) : Option String :=
  match line.toList with
  | '(' :: cs => some (String.ofList cs.dropLast)
  | _ => none

/-- The names that the lines of a program declare as labels, in order. -/
def declaredIn (text : List String) : List String :=
  text.filterMap declared?

theorem declared?_text (x : Statement) : declared? x.text = x.label? := by
  cases x with
  | label name =>
    have htext : (Statement.label name).text.toList = '(' :: (name.toList ++ [')']) := by
      simp only [Statement.text, String.toList_append]
      rfl
    simp only [declared?, htext, List.dropLast_concat, String.ofList_toList]
    rfl
  | address a =>
    have htext : (Statement.address a).text.toList = '@' :: a.text.toList := by
      rw [Statement.text, String.toList_append]
      rfl
    simp only [declared?, htext]
    rfl
  | compute k =>
    -- a computation does not begin with a parenthesis
    obtain ⟨c, cs, htext, -, hparen⟩ := k.exists_text_eq_cons
    rw [declared?, Statement.text, htext]
    split
    · rename_i heq
      injection heq with heq
      exact absurd heq hparen
    · rfl

theorem declared?_comment (text : String) : declared? (Line.comment text).text = none := by
  rw [declared?, Line.toList_text_comment]
  rfl

/-- The labels that the lines of a program declare are those of its statements. -/
theorem declaredIn_text (lines : List Line) :
    declaredIn (lines.map Line.text) = labels (statementsOf lines) := by
  rw [declaredIn, List.filterMap_map, labels, statementsOf, List.filterMap_filterMap]
  congr 1
  funext line
  cases line with
  | comment text => exact declared?_comment text
  | statement x => exact declared?_text x

/-! ### Loading a program -/

theorem length_eraseDups_le (names : List String) : names.eraseDups.length ≤ names.length := by
  induction hn : names.length using Nat.strong_induction_on generalizing names with
  | _ n ih =>
    cases names with
    | nil => simp
    | cons name names =>
      have hfilter := List.length_filter_le (fun b => !b == name) names
      rw [List.length_cons] at hn
      have := ih _ (by omega) (names.filter fun b => !b == name) rfl
      rw [List.eraseDups_cons, List.length_cons]
      omega

/-- Each address in the code of an instruction is followed by a computation of its own. -/
theorem two_mul_symbols_le (s : Scope) (i : Instruction) :
    2 * (symbols (i.code s)).length ≤ wordCount (i.code s) := by
  cases i with
  | operation op =>
    cases op <;> simp [Instruction.code, Operation.code, compareCode, popData]
  | push segment index =>
    cases segment <;> simp [Instruction.code, Segment.sourceCode, Segment.base?, Segment.address,
      pushIndexed, pushData]
  | pop segment index =>
    cases segment <;> simp [Instruction.code, Segment.targetCode, Segment.base?, Segment.address,
      targetIndexed, popToTarget, popData, storeData]
  | function name locals =>
    rw [Instruction.code, symbols_label, wordCount_label]
    induction locals.toNat with
    | zero => simp
    | succ n ih =>
      rw [List.replicate_succ, List.flatten_cons, symbols_append, wordCount_append,
        List.length_append]
      have hzero : 2 * (symbols pushZero).length ≤ wordCount pushZero := by decide
      omega
  | _ =>
    simp [Instruction.code, callCode, returnCode, pushData, popData, pushCell, savedCells,
      enterFrame, loadData, storeData, restore]

theorem two_mul_symbols_codeOf_le (program : List Placed) :
    2 * (symbols (codeOf program)).length ≤ wordCount (codeOf program) := by
  induction program with
  | nil => simp
  | cons p program ih =>
    have := two_mul_symbols_le p.scope p.instruction
    rw [codeOf_cons, symbols_append, wordCount_append, List.length_append, Placed.code]
    omega

theorem symbols_map_reread (code : List Statement) :
    symbols (code.map Statement.reread) =
      (symbols code).filter fun name => (digitsNumber? name).isNone := by
  induction code with
  | nil => rfl
  | cons x code ih =>
    cases x with
    | address a =>
      cases a with
      | literal n => simpa [Statement.reread, Address.reread] using ih
      | symbol name =>
        cases hdigits : digitsNumber? name <;>
          simp [Statement.reread, Address.reread, hdigits, ih]
    | label name => simpa [Statement.reread] using ih
    | compute k => simpa [Statement.reread] using ih

theorem variableNames_le (code : List Statement) :
    (variableNames (code.map Statement.reread)).length ≤ (symbols code).length := by
  rw [variableNames, symbols_map_reread]
  exact (length_eraseDups_le _).trans
    ((List.length_filter_le _ _).trans (List.length_filter_le _ _))

/-- Paths whose names hold no slash, as the parts of a path do not. -/
def PathsAreProper (files : List SourceFile) : Prop :=
  ∀ file ∈ files, '/' ∉ file.path.stem.toList

/-- Paths that have been read from texts are proper. -/
theorem pathsAreProper_of_text {files : List SourceFile}
    (h : ∀ file ∈ files, ∃ text, file.path = Files.Path.ofText text) : PathsAreProper files := by
  intro file hfile
  obtain ⟨text, htext⟩ := h file hfile
  rw [htext]
  exact Files.Path.slash_notMem_stem text

/-- What is known of a program that has been compiled and assembled. -/
structure Built (program : List Placed) (text : List String) (words : Array Int) : Prop where
  /-- The instructions are well formed. -/
  isWellFormed : ∀ p ∈ program, p.IsWellFormed
  /-- The lines declare the labels of the program. -/
  declaredIn_eq : declaredIn text = labels (codeOf program)
  /-- The labels are symbols. -/
  isSymbol : ∀ name ∈ labels (codeOf program), Asm.isSymbol name.toList = true
  /-- The labels are different from each other and from the predefined symbols. -/
  nodup : (labels (codeOf program)).Nodup
  not_predefined : ∀ name ∈ labels (codeOf program), MemoryMap.predefined? name = none
  /-- The code is loaded where the words are. -/
  loaded : ∀ c : Computer, c.rom = words → Loaded c (.ofCode (codeOf program)) 0 (codeOf program)
  /-- There is a word for each instruction. -/
  size_eq : words.size = wordCount (codeOf program)

/-- No slash stands in the name of the unit of an instruction. -/
theorem slash_notMem_unitName {files : List SourceFile} {bootstrap : Bool}
    (hpaths : PathsAreProper files) :
    ∀ p ∈ programOf files bootstrap, '/' ∉ p.scope.unitName.toList := by
  intro p hp
  rcases unitName_programOf p hp with hname | ⟨file, hfile, hname⟩
  · rw [hname]
    decide
  · rw [hname]
    exact hpaths file hfile

/-- The code of a program that is compiled is read as it is printed, if its lines are read at all,
and its instructions are well formed. -/
theorem readable_of_compile {files : List SourceFile} {bootstrap comments : Bool}
    {text : List String} (hpaths : PathsAreProper files)
    (hcompile : compile files bootstrap comments = .ok text) :
    (∀ p ∈ programOf files bootstrap, p.IsWellFormed) ∧
      declaredIn text = labels (codeOf (programOf files bootstrap)) ∧
      ∀ read, readStatements text = .ok read →
        read = (codeOf (programOf files bootstrap)).map Statement.reread ∧
          ∀ x ∈ codeOf (programOf files bootstrap), x.IsReadable := by
  obtain ⟨hlegal, lines, rfl, hstatements, -⟩ := compile_eq_ok hcompile
  have hwell : ∀ p ∈ programOf files bootstrap, p.IsWellFormed := isWellFormed_programOf hlegal
  have hclean : ∀ x ∈ statementsOf lines, x.IsClean := by
    rw [hstatements]
    intro x hx
    obtain ⟨p, hp, hx⟩ := List.mem_flatMap.1 hx
    exact (hwell p hp).isClean (slash_notMem_unitName hpaths p hp) x hx
  refine ⟨hwell, ?_, fun read hread => ?_⟩
  · rw [declaredIn_text, hstatements]
  · rw [← hstatements]
    exact readStatements_lines hclean hread

/-- A program that is compiled and assembled is assembled from its code. -/
theorem assembled_of_compile {files : List SourceFile} {bootstrap comments : Bool}
    {text : List String} {words : Array Int} (hpaths : PathsAreProper files)
    (hcompile : compile files bootstrap comments = .ok text)
    (hassemble : assemble text = .ok words) :
    readStatements text = .ok ((codeOf (programOf files bootstrap)).map Statement.reread) ∧
      (∀ x ∈ codeOf (programOf files bootstrap), x.IsReadable) ∧
      assembleStatements ((codeOf (programOf files bootstrap)).map Statement.reread) =
        .ok words := by
  obtain ⟨-, -, hreads⟩ := readable_of_compile hpaths hcompile
  obtain ⟨read, hread, hwords⟩ := exists_program_of_assemble hassemble
  obtain ⟨rfl, hreadable⟩ := hreads read hread
  exact ⟨hread, hreadable, hwords⟩

/-- There is a word for each instruction of a program that is compiled and assembled. -/
theorem size_of_compile {files : List SourceFile} {bootstrap comments : Bool}
    {text : List String} {words : Array Int} (hpaths : PathsAreProper files)
    (hcompile : compile files bootstrap comments = .ok text)
    (hassemble : assemble text = .ok words) :
    words.size = wordCount (codeOf (programOf files bootstrap)) :=
  size_of_assembleStatements (assembled_of_compile hpaths hcompile hassemble).2.2

/-- Units that are compiled and assembled have code and words. -/
theorem exists_words (files : List SourceFile) (bootstrap comments : Bool)
    (h : ((compile files bootstrap comments).toOption.bind
      fun text => (assemble text).toOption).isSome = true) :
    ∃ text words, compile files bootstrap comments = .ok text ∧ assemble text = .ok words := by
  obtain ⟨words, hwords⟩ := Option.isSome_iff_exists.1 h
  obtain ⟨text, htext, hwords⟩ := Option.bind_eq_some_iff.1 hwords
  exact ⟨text, words, Except.toOption_eq_some htext, Except.toOption_eq_some hwords⟩

/-- A program that is compiled and assembled is loaded wherever its words are. -/
theorem built_of_compile {files : List SourceFile} {bootstrap comments : Bool} {text : List String}
    {words : Array Int} (hpaths : PathsAreProper files)
    (hcompile : compile files bootstrap comments = .ok text)
    (hassemble : assemble text = .ok words) (hsize : words.size < 0x8000) :
    Built (programOf files bootstrap) text words := by
  obtain ⟨hwell, hdeclared, -⟩ := readable_of_compile hpaths hcompile
  obtain ⟨-, hreadable, hcode⟩ := assembled_of_compile hpaths hcompile hassemble
  have hcount := size_of_assembleStatements hcode
  -- an instruction with a symbol comes with one without, so that the variables fit as well
  have hvariables : MemoryMap.variableBase + (variableNames
      ((codeOf (programOf files bootstrap)).map Statement.reread)).length ≤ 0x8000 := by
    have hbase : MemoryMap.variableBase = 16 := rfl
    have hhalf := two_mul_symbols_codeOf_le (programOf files bootstrap)
    have hnames := variableNames_le (codeOf (programOf files bootstrap))
    omega
  obtain ⟨-, hnodup, hnew⟩ := assembleStatements_eq_ok hcode
  rw [labels_map_reread] at hnodup hnew
  refine ⟨hwell, hdeclared, fun name hname => hreadable _ (mem_labels.1 hname), hnodup, hnew, ?_,
    hcount⟩
  rintro c rfl
  exact loaded_of_assembleStatements hreadable hcode hsize hvariables

/-! ### Addresses -/

namespace Instruction

/-- The symbol of the static variable that an instruction refers to. -/
def static? (s : Scope) : Instruction → Option String
  | .push .static index | .pop .static index => some (s.staticSymbol index)
  | _ => none

/-- The function that an instruction calls. -/
def callee? : Instruction → Option String
  | .start => some Emitter.firstFunction
  | .call name _ => some name
  | _ => none

/-- The symbol that an instruction goes to. -/
def target? (s : Scope) : Instruction → Option String
  | .start => some Emitter.firstFunction
  | .goto name | .ifGoto name => some (s.qualify name)
  | .call name _ => some name
  | _ => none

theorem mem_target?_of_mem_callee? {s : Scope} {i : Instruction} {name : String}
    (h : name ∈ i.callee?) : name ∈ i.target? s := by
  cases i with
  | start | call => exact h
  | _ => cases h

theorem exists_of_mem_static? {s : Scope} {i : Instruction} {name : String}
    (h : name ∈ i.static? s) : ∃ s index, name = Scope.staticSymbol s index := by
  unfold static? at h
  split at h
  · exact ⟨_, _, (Option.some.inj h).symm⟩
  · exact ⟨_, _, (Option.some.inj h).symm⟩
  · cases h

end Instruction

/-- The static variables of a program, in the order in which it mentions them. -/
def staticNames (program : List Placed) : List String :=
  (program.filterMap fun p => p.instruction.static? p.scope).eraseDups

/-- The address of a symbol in a program: a label stands for the number of words before it, and the
static variables have cells in the order in which the program mentions them. -/
def addressIn (program : List Placed) (name : String) : Nat :=
  (labelAddress? name 0 (codeOf program)).getD
    (MemoryMap.variableBase + (staticNames program).idxOf name)

/-- All targets of jumps are labels. -/
def TargetsAreDeclared (program : List Placed) (text : List String) : Prop :=
  ∀ p ∈ program, ∀ name ∈ p.instruction.target? p.scope, name ∈ declaredIn text

/-- No static variable is a label. -/
def StaticsAreVariables (program : List Placed) (text : List String) : Prop :=
  ∀ p ∈ program, ∀ name ∈ p.instruction.static? p.scope, name ∉ declaredIn text

section Addresses

variable {program : List Placed} {text : List String} {words : Array Int}

theorem Built.digitsNumber?_label (hb : Built program text words) {name : String}
    (hname : name ∈ labels (codeOf program)) : digitsNumber? name = none := by
  rw [digitsNumber?, isDigits_of_isSymbol (hb.isSymbol name hname)]
  rfl

/-- A label has the same address in the program and in its code. -/
theorem Built.address_label (hb : Built program text words) {name : String}
    (hname : name ∈ declaredIn text) :
    (Layout.ofCode (codeOf program)).address name = addressIn program name := by
  rw [hb.declaredIn_eq] at hname
  obtain ⟨n, hn⟩ := Option.isSome_iff_exists.1 ((mem_labels_iff_labelAddress? 0).1 hname)
  simp only [Layout.ofCode, hb.digitsNumber?_label hname, symbolAddress, knownAddress?,
    hb.not_predefined name hname, Option.none_or, labelAddress?_map_reread, addressIn, hn,
    Option.getD_some]

/-- What a filter leaves of the symbols of an instruction if it drops labels and keeps static
variables. -/
theorem filter_uses {r : String → Bool} {s : Scope} {i : Instruction}
    (hdeclares : ∀ name ∈ i.declares s, r name = false)
    (htarget : ∀ name ∈ i.target? s, r name = false)
    (hstatic : ∀ name ∈ i.static? s, r name = true) :
    (i.uses s).filter r = (i.static? s).toList := by
  cases i with
  | start =>
    have hback := hdeclares (s.numbered "RET_") (by simp [Instruction.declares])
    have hfirst := htarget Emitter.firstFunction rfl
    simp [Instruction.uses, Instruction.static?, hback, hfirst]
  | call name arguments =>
    have hback := hdeclares (s.numbered "RET_") (by simp [Instruction.declares])
    have hname := htarget name rfl
    simp [Instruction.uses, Instruction.static?, hback, hname]
  | operation op =>
    simp only [Instruction.declares] at hdeclares
    simp only [Instruction.uses, Instruction.static?]
    split at hdeclares
    · rename_i hop
      -- a comparison only uses the labels that it declares
      rw [if_pos hop, List.filter_eq_nil_iff.2]
      · rfl
      · intro name hname
        rw [hdeclares name hname]
        exact Bool.false_ne_true
    · rename_i hop
      rw [if_neg hop]
      rfl
  | goto name | ifGoto name =>
    have hname := htarget (s.qualify name) rfl
    simp [Instruction.uses, Instruction.static?, hname]
  | push segment index | pop segment index =>
    cases segment with
    | static =>
      have hname := hstatic (s.staticSymbol index) rfl
      simp [Instruction.uses, Instruction.static?, hname]
    | _ => rfl
  | _ => rfl

/-- The symbols in the code of a program that a filter leaves if it drops register cells and labels
and keeps static variables. -/
theorem filter_symbols_codeOf {r : String → Bool} {program : List Placed}
    (hcell : ∀ cell : Cell, r cell.symbol = false)
    (hlegal : ∀ p ∈ program, p.instruction.IsLegal)
    (hlabel : ∀ name ∈ labels (codeOf program), r name = false)
    (htarget : ∀ p ∈ program, ∀ name ∈ p.instruction.target? p.scope, r name = false)
    (hstatic : ∀ p ∈ program, ∀ name ∈ p.instruction.static? p.scope, r name = true) :
    (symbols (codeOf program)).filter r =
      program.filterMap fun p => p.instruction.static? p.scope := by
  induction program with
  | nil => rfl
  | cons p program ih =>
    have hp : p ∈ p :: program := List.mem_cons_self
    have hlater {q : Placed} (hq : q ∈ program) : q ∈ p :: program := List.mem_cons_of_mem _ hq
    have hrest := ih (fun q hq => hlegal q (hlater hq))
      (fun name hname => hlabel name (by simp [hname])) (fun q hq => htarget q (hlater hq))
      (fun q hq => hstatic q (hlater hq))
    have hfirst : (symbols p.code).filter r = (p.instruction.static? p.scope).toList := by
      rw [Placed.code, Instruction.filter_symbols_code hcell p.scope (hlegal p hp)]
      refine filter_uses (fun name hname => hlabel name ?_) (htarget p hp) (hstatic p hp)
      rw [codeOf_cons, labels_append, Placed.code, Instruction.labels_code]
      exact List.mem_append_left _ hname
    rw [codeOf_cons, symbols_append, List.filter_append, hfirst, hrest, List.filterMap_cons]
    cases p.instruction.static? p.scope <;> rfl

/-- The variables in the code are the static variables of the program. -/
theorem Built.variableNames_eq (hb : Built program text words)
    (htargets : TargetsAreDeclared program text) (hstatics : StaticsAreVariables program text) :
    variableNames ((codeOf program).map Statement.reread) = staticNames program := by
  -- a label has an address, so that it is no variable
  have hknown {name : String} (hname : name ∈ labels (codeOf program)) :
      knownAddress? ((codeOf program).map Statement.reread) name ≠ none := by
    rw [knownAddress?, labelAddress?_map_reread, ne_eq, Option.or_eq_none_iff]
    rintro ⟨-, hnone⟩
    rw [mem_labels_iff_labelAddress? 0, hnone] at hname
    cases hname
  rw [variableNames, symbols_map_reread, List.filter_filter, staticNames]
  congr 1
  refine filter_symbols_codeOf (fun cell => ?_) (fun p hp => (hb.isWellFormed p hp).isLegal)
    (fun name hname => ?_) (fun p hp name hname => ?_) (fun p hp name hname => ?_)
  · simp [knownAddress?, MemoryMap.predefined?_symbol]
  · simp [hknown hname]
  · have hname' := hb.declaredIn_eq ▸ htargets p hp name hname
    simp [hknown hname']
  · -- a static variable is neither a numeral nor predefined nor a label
    have hlabel := hb.declaredIn_eq ▸ hstatics p hp name hname
    rw [mem_labels_iff_labelAddress? 0, Bool.not_eq_true, Option.isSome_eq_false_iff,
      Option.isNone_iff_eq_none] at hlabel
    obtain ⟨s, index, rfl⟩ := Instruction.exists_of_mem_static? hname
    obtain ⟨hdigits, hpredefined⟩ := Scope.staticSymbol_ne s index
    simp [hdigits, knownAddress?, hpredefined, labelAddress?_map_reread, hlabel]

/-- A static variable has the same cell in the program and in its code. -/
theorem Built.address_static (hb : Built program text words)
    (htargets : TargetsAreDeclared program text) (hstatics : StaticsAreVariables program text)
    {p : Placed} (hp : p ∈ program) {name : String}
    (hname : name ∈ p.instruction.static? p.scope) :
    (Layout.ofCode (codeOf program)).address name = addressIn program name := by
  have hlabel : labelAddress? name 0 (codeOf program) = none := by
    rw [← Option.not_isSome_iff_eq_none, ← mem_labels_iff_labelAddress? 0, ← hb.declaredIn_eq]
    exact hstatics p hp name hname
  obtain ⟨s, index, rfl⟩ := Instruction.exists_of_mem_static? hname
  obtain ⟨hdigits, hpredefined⟩ := Scope.staticSymbol_ne s index
  simp only [Layout.ofCode, hdigits, symbolAddress, knownAddress?, hpredefined, Option.none_or,
    labelAddress?_map_reread, hlabel, addressIn, Option.getD_none,
    hb.variableNames_eq htargets hstatics]

/-- The last two words of a call, which load the address of the function and jump there, stand
behind another instruction. -/
theorem exists_code_of_callee {s : Scope} {i : Instruction} {name : String}
    (h : name ∈ i.callee?) :
    ∃ front k a back, i.code s = front ++ .compute k :: .address a :: back ∧
      wordCount (i.code s) = wordCount front + 3 := by
  cases i with
  | start =>
    refine ⟨[atNumber MemoryMap.stackBase, setD (.get .a)] ++ storeData .sp ++
      ([atSymbol (s.numbered "RET_"), setD (.get .a)] ++ pushData ++
        savedCells.flatMap pushCell ++
          (loadData .sp ++ [atNumber (frameCells + 0), setD (.sub .a)] ++
            storeData .arg ++ loadData .sp ++ [atCell .lcl])), _, _, _, rfl, rfl⟩
  | call function arguments =>
    refine ⟨[atSymbol (s.numbered "RET_"), setD (.get .a)] ++ pushData ++
        savedCells.flatMap pushCell ++
          (loadData .sp ++ [atNumber (frameCells + arguments), setD (.sub .a)] ++
            storeData .arg ++ loadData .sp ++ [atCell .lcl]), _, _, _, rfl, rfl⟩
  | _ => cases h

/-- No label stands where a call loads the address of its function. -/
theorem address_ne_of_callee {c : Computer} {σ : Layout} {k : Nat} {p : Placed}
    {name label : String}
    (hl : Loaded c σ 0 (codeOf program)) (hp : program[k]? = some p)
    (hcallee : name ∈ p.instruction.callee?) (hlabel : label ∈ labels (codeOf program)) :
    σ.address label + 2 ≠ startOf program k + wordCount p.code := by
  obtain ⟨front, x, a, back, hcode, hcount⟩ := exists_code_of_callee (s := p.scope) hcallee
  obtain ⟨xs, ys, hxs⟩ := List.append_of_mem (mem_labels.1 hlabel)
  have haddress : σ.address label = wordCount xs := by
    rw [hxs, Loaded.append_iff, Nat.zero_add] at hl
    exact hl.2.1
  have hsplit : xs ++ .label label :: ys = (codeOf (program.take k) ++ front) ++
      .compute x :: .address a :: (back ++ codeOf (program.drop (k + 1))) := by
    rw [← hxs, codeOf_split hp, Placed.code, hcode]
    simp
  have hplace := wordCount_ne_of_label rfl rfl hsplit
  rw [wordCount_append] at hplace
  rw [haddress, Placed.code, hcount, startOf]
  omega

end Addresses

end HackToolchain.VM
