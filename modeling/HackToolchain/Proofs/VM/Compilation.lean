import HackToolchain.Proofs.Asm.Reading
import HackToolchain.Proofs.Text.Lines
import HackToolchain.Proofs.VM.Instruction
import HackToolchain.VM.Program

/-!
# The code of a whole program

A program is a list of instructions, each in its scope (`Placed`).  `programOf` gives the program
that files hold, and `codeOf` its code.

* `compile_eq_ok`: whatever is compiled, the lines are those of the code of the program, with
  comments between them in which no line ends.
-/

namespace HackToolchain.VM

open Asm Text

/-! ### Commands -/

theorem Command.text_of_ofText {text : String} {line : Nat} {c : Command}
    (h : Command.ofText text line = .ok c) : c.text = String.ofList (strip text.toList) := by
  simp only [Command.ofText, bind, Except.bind, pure, Except.pure] at h
  split at h
  · cases h
  · rw [Except.ok.injEq] at h
    rw [← h]

/-- A command of a source text is part of one of its lines, in front of the comment. -/
theorem exists_line_of_readCommands {source : String} {cs : List Command}
    (h : readCommands source = .ok cs) {c : Command} (hc : c ∈ cs) :
    ∃ line ∈ splitLines source.toList, c.text.toList <:+: beforeSlashes line := by
  obtain ⟨numbered, hnumbered, hread⟩ := exists_of_mem_mapM h hc
  obtain ⟨⟨line, number⟩, hline, htext⟩ := List.mem_filterMap.1 hnumbered
  refine ⟨line, (List.of_mem_zip (List.zipIdx_eq_zip_range' ▸ hline)).1, ?_⟩
  dsimp only at htext
  split at htext
  · cases htext
  · -- the command is what is left of the line, stripped once more
    injection htext with htext
    rw [Command.text_of_ofText hread, String.toList_ofList, ← htext, String.toList_ofList]
    exact (strip_isInfix _).trans (strip_isInfix _)

/-- No line ends in a command of a source text. -/
theorem isUnbroken_of_readCommands {source : String} {cs : List Command}
    (h : readCommands source = .ok cs) : ∀ c ∈ cs, IsUnbroken c.text.toList := by
  intro c hc
  obtain ⟨line, hline, hpart⟩ := exists_line_of_readCommands h hc
  exact (isUnbroken_of_mem_splitLines hline).of_isInfix
    (hpart.trans (beforeSlashes_isPrefix line).isInfix)

/-! ### Programs -/

/-- An instruction and the scope in which it stands. -/
structure Placed where
  /-- The scope. -/
  scope : Scope
  /-- The instruction. -/
  instruction : Instruction
  deriving DecidableEq, Repr

/-- The code of a placed instruction. -/
def Placed.code (p : Placed) : List Statement :=
  p.instruction.code p.scope

/-- The code of a program. -/
def codeOf (program : List Placed) : List Statement :=
  program.flatMap Placed.code

@[simp] theorem codeOf_nil : codeOf [] = [] := rfl

@[simp] theorem codeOf_cons (p : Placed) (program : List Placed) :
    codeOf (p :: program) = p.code ++ codeOf program :=
  List.flatMap_cons

@[simp] theorem codeOf_append (xs ys : List Placed) : codeOf (xs ++ ys) = codeOf xs ++ codeOf ys :=
  List.flatMap_append

/-- The scope behind some instructions. -/
def scopeAfter (s : Scope) (is : List Instruction) : Scope :=
  is.foldl (fun s i => i.after s) s

/-- Instructions that follow each other, from a scope on. -/
def layOut (s : Scope) : List Instruction → List Placed
  | [] => []
  | i :: is => ⟨s, i⟩ :: layOut (i.after s) is

namespace SourceFile

/-- The commands that a file holds; none if it cannot be read. -/
def commands (file : SourceFile) : List Command :=
  match textOfFile file.bytes with
  | .error _ => []
  | .ok source => (readCommands source).toOption.getD []

/-- The instructions that a file holds. -/
def instructions (file : SourceFile) : List Instruction :=
  file.commands.filterMap Instruction.ofCommand?

/-- The scope in which a file starts. -/
def enter (file : SourceFile) (s : Scope) : Scope :=
  { s with unitName := file.path.stem }

end SourceFile

/-- The instructions of files, from a scope on. -/
def layOutFiles (s : Scope) : List SourceFile → List Placed
  | [] => []
  | file :: files =>
    layOut (file.enter s) file.instructions ++
      layOutFiles (scopeAfter (file.enter s) file.instructions) files

/-- What stands before the instructions of the files. -/
def preamble (bootstrap : Bool) : List Instruction :=
  if bootstrap then [.start] else []

/-- The program that files hold, behind the code that starts it if that is wanted. -/
def programOf (files : List SourceFile) (bootstrap : Bool) : List Placed :=
  layOut {} (preamble bootstrap) ++ layOutFiles (scopeAfter {} (preamble bootstrap)) files

/-! ### Lines -/

/-- The statement on a line. -/
def Line.statement? : Line → Option Statement
  | .comment _ => none
  | .statement x => some x

theorem Line.toList_text_comment (text : String) :
    (Line.comment text).text.toList = '/' :: '/' :: ' ' :: text.toList := by
  rw [Line.text, String.toList_append]
  rfl

/-- The statements on some lines. -/
def statementsOf (lines : List Line) : List Statement :=
  lines.filterMap Line.statement?

@[simp] theorem statementsOf_append (xs ys : List Line) :
    statementsOf (xs ++ ys) = statementsOf xs ++ statementsOf ys :=
  List.filterMap_append

@[simp] theorem statementsOf_comment (text : String) (lines : List Line) :
    statementsOf (.comment text :: lines) = statementsOf lines := rfl

@[simp] theorem statementsOf_map (code : List Statement) :
    statementsOf (code.map .statement) = code := by
  rw [statementsOf, List.filterMap_map]
  exact List.filterMap_some

/-- No line ends in a comment. -/
def CommentsAreUnbroken (lines : List Line) : Prop :=
  ∀ text, Line.comment text ∈ lines → IsUnbroken text.toList

theorem CommentsAreUnbroken.append {xs ys : List Line} (hxs : CommentsAreUnbroken xs)
    (hys : CommentsAreUnbroken ys) : CommentsAreUnbroken (xs ++ ys) := by
  intro text htext
  rcases List.mem_append.1 htext with htext | htext
  · exact hxs text htext
  · exact hys text htext

theorem commentsAreUnbroken_map (code : List Statement) :
    CommentsAreUnbroken (code.map .statement) := by
  intro text htext
  obtain ⟨_, -, heq⟩ := List.mem_map.1 htext
  cases heq

theorem commentsAreUnbroken_singleton {text : String} (htext : IsUnbroken text.toList) :
    CommentsAreUnbroken [.comment text] := by
  intro other hother
  cases List.mem_singleton.1 hother
  exact htext

namespace Emitter

variable {s s' : Scope} {lines : List Line}

@[simp] theorem emit_eq_ok_iff {code : List Line} {u : Unit} :
    emit code s = ⟨lines, s', .ok u⟩ ↔ lines = code ∧ s' = s := by
  simp [emit, eq_comm]

theorem commandComment_eq_ok {comments : Bool} {text : String} {u : Unit}
    (htext : IsUnbroken text.toList) (h : commandComment comments text s = ⟨lines, s', .ok u⟩) :
    statementsOf lines = [] ∧ CommentsAreUnbroken lines ∧ s' = s := by
  unfold commandComment at h
  split at h
  · obtain ⟨rfl, rfl⟩ := emit_eq_ok_iff.1 h
    exact ⟨rfl, commentsAreUnbroken_singleton htext, rfl⟩
  · obtain ⟨rfl, rfl, -⟩ := done_eq_ok_iff.1 h
    exact ⟨rfl, commentsAreUnbroken_map [], rfl⟩

/-- Whenever code is emitted for a command, its statements are those of the instruction that the
command reads as. -/
theorem command_eq_ok {comments : Bool} {c : Command} {u : Unit}
    (hc : IsUnbroken c.text.toList) (h : command comments c s = ⟨lines, s', .ok u⟩) :
    ∃ i, Instruction.ofCommand? c = some i ∧ i.IsLegal ∧ statementsOf lines = i.code s ∧
      CommentsAreUnbroken lines ∧ s' = i.after s := by
  simp only [command, bind_eq, andThen_eq_ok_iff] at h
  obtain ⟨_, _, _, _, hcomment, hplain, rfl⟩ := h
  obtain ⟨hnil, hunbroken, rfl⟩ := commandComment_eq_ok hc hcomment
  obtain ⟨i, hread, hlegal, rfl, rfl⟩ := plainCommand_eq_ok hplain
  refine ⟨i, hread, hlegal, ?_, hunbroken.append (commentsAreUnbroken_map _), rfl⟩
  rw [statementsOf_append, hnil, statementsOf_map, List.nil_append]

theorem start_eq_ok {comments : Bool} {u : Unit} (h : start comments s = ⟨lines, s', .ok u⟩) :
    statementsOf lines = Instruction.start.code s ∧ CommentsAreUnbroken lines ∧
      s' = Instruction.start.after s := by
  have hcall {lines : List Line} {s' : Scope}
      (h : call firstFunction 0 s = ⟨lines, s', .ok u⟩) :
      statementsOf lines = callCode (s.numbered "RET_") firstFunction 0 ∧
        CommentsAreUnbroken lines ∧ s' = s.afterLabel := by
    obtain ⟨rfl, rfl⟩ := call_eq_ok h
    exact ⟨statementsOf_map _, commentsAreUnbroken_map _, rfl⟩
  unfold start at h
  split at h
  · simp only [bind_eq, andThen_eq_ok_iff, emit_eq_ok_iff, statements_eq_ok_iff] at h
    obtain ⟨_, _, _, _, ⟨rfl, rfl⟩, ⟨_, _, _, _, ⟨rfl, rfl⟩, hc, rfl⟩, rfl⟩ := h
    obtain ⟨hcode, hunbroken, rfl⟩ := hcall hc
    refine ⟨?_, (commentsAreUnbroken_singleton ?_).append
      ((commentsAreUnbroken_map _).append hunbroken), rfl⟩
    · simp only [statementsOf_append, hcode, statementsOf_map]
      rfl
    · exact isUnbroken_of_all rfl
  · simp only [bind_eq, andThen_eq_ok_iff, statements_eq_ok_iff] at h
    obtain ⟨_, _, _, _, ⟨rfl, rfl⟩, hc, rfl⟩ := h
    obtain ⟨hcode, hunbroken, rfl⟩ := hcall hc
    refine ⟨?_, (commentsAreUnbroken_map _).append hunbroken, rfl⟩
    simp only [statementsOf_append, hcode, statementsOf_map]
    rfl

end Emitter

/-! ### Generators -/

namespace Generator

variable {g g' : Generator}

/-- A generator goes on to another by adding the code of instructions. -/
structure Adds (g g' : Generator) (program : List Placed) (s : Scope) : Prop where
  comments_eq : g'.comments = g.comments
  scope_eq : g'.scope = s
  code_eq : statementsOf g'.code.toList = statementsOf g.code.toList ++ codeOf program
  unbroken : CommentsAreUnbroken g.code.toList → CommentsAreUnbroken g'.code.toList

theorem Adds.trans {g'' : Generator} {xs ys : List Placed} {s s' : Scope} (h : g.Adds g' xs s)
    (h' : g'.Adds g'' ys s') : g.Adds g'' (xs ++ ys) s' where
  comments_eq := h'.comments_eq.trans h.comments_eq
  scope_eq := h'.scope_eq
  code_eq := by rw [h'.code_eq, h.code_eq, codeOf_append, List.append_assoc]
  unbroken hunbroken := h'.unbroken (h.unbroken hunbroken)

theorem Adds.refl (g : Generator) : g.Adds g [] g.scope :=
  ⟨rfl, rfl, (List.append_nil _).symm, id⟩

theorem add_eq_ok {α : Type} {x : Emitter α} {a : α} (h : g.add x = (.ok a, g')) :
    ∃ lines, x g.scope = ⟨lines, g'.scope, .ok a⟩ ∧ g'.comments = g.comments ∧
      g'.code.toList = g.code.toList ++ lines := by
  unfold add at h
  rcases hx : x g.scope with ⟨lines, s, r⟩
  rw [hx] at h
  injection h with hr hg
  subst hr hg
  exact ⟨lines, rfl, rfl, Array.toList_appendList⟩

theorem addCommand_eq_ok {c : Command} (hc : IsUnbroken c.text.toList)
    (h : g.addCommand c = (.ok (), g')) :
    ∃ i, Instruction.ofCommand? c = some i ∧ i.IsLegal ∧
      g.Adds g' [⟨g.scope, i⟩] (i.after g.scope) := by
  obtain ⟨lines, hx, hcomments, hcode⟩ := add_eq_ok h
  obtain ⟨i, hread, hlegal, hlines, hunbroken, hscope⟩ := Emitter.command_eq_ok hc hx
  refine ⟨i, hread, hlegal, hcomments, hscope, ?_, fun hg => hcode ▸ hg.append hunbroken⟩
  rw [hcode, statementsOf_append, hlines, codeOf_cons, codeOf_nil, List.append_nil]
  rfl

theorem addCommands_eq_ok {cs : List Command} (hcs : ∀ c ∈ cs, IsUnbroken c.text.toList)
    (h : g.addCommands cs = (.ok (), g')) :
    (∀ i ∈ cs.filterMap Instruction.ofCommand?, i.IsLegal) ∧
      g.Adds g' (layOut g.scope (cs.filterMap Instruction.ofCommand?))
        (scopeAfter g.scope (cs.filterMap Instruction.ofCommand?)) := by
  induction cs generalizing g with
  | nil =>
    injection h with _ h
    subst h
    exact ⟨fun _ hi => absurd hi List.not_mem_nil, .refl g⟩
  | cons c cs ih =>
    unfold addCommands at h
    rcases hadd : g.addCommand c with ⟨error | _, g''⟩
    · rw [hadd] at h
      cases h
    · rw [hadd] at h
      obtain ⟨i, hread, hlegal, hadds⟩ := addCommand_eq_ok (hcs c List.mem_cons_self) hadd
      obtain ⟨hrest, hadds'⟩ := ih (fun d hd => hcs d (List.mem_cons_of_mem _ hd)) h
      rw [hadds.scope_eq] at hadds'
      rw [List.filterMap_cons_some hread]
      refine ⟨fun j hj => ?_, hadds.trans hadds'⟩
      rcases List.mem_cons.1 hj with rfl | hj
      · exact hlegal
      · exact hrest j hj

/-- A file whose code is added has been read, and its commands are what is added. -/
theorem addCommands_of_addFile {file : SourceFile} (h : g.addFile file = .ok g') :
    (∃ source, readCommands source = .ok file.commands) ∧
      (g.enterUnit file.path.stem).addCommands file.commands = (.ok (), g') := by
  unfold addFile at h
  split at h
  · cases h
  · rename_i source hsource
    split at h
    · cases h
    · rename_i cs hcs
      have hcommands : file.commands = cs := by
        rw [SourceFile.commands, hsource]
        exact congrArg (fun read => read.toOption.getD []) hcs
      split at h
      · rename_i hadd
        injection h with h
        subst h
        rw [hcommands]
        exact ⟨⟨source, hcs⟩, hadd⟩
      · cases h

theorem addFile_eq_ok {file : SourceFile} (h : g.addFile file = .ok g') :
    (∀ i ∈ file.instructions, i.IsLegal) ∧
      g.Adds g' (layOut (file.enter g.scope) file.instructions)
        (scopeAfter (file.enter g.scope) file.instructions) := by
  obtain ⟨⟨source, hcs⟩, hadd⟩ := addCommands_of_addFile h
  obtain ⟨hlegal, hadds⟩ := addCommands_eq_ok (isUnbroken_of_readCommands hcs) hadd
  exact ⟨hlegal, hadds.comments_eq, hadds.scope_eq, hadds.code_eq, hadds.unbroken⟩

theorem addFiles_eq_ok {files : List SourceFile} (h : g.addFiles files = .ok g') :
    (∀ file ∈ files, ∀ i ∈ file.instructions, i.IsLegal) ∧
      ∃ s, g.Adds g' (layOutFiles g.scope files) s := by
  induction files generalizing g with
  | nil =>
    injection h with h
    subst h
    exact ⟨fun _ hf => absurd hf List.not_mem_nil, _, .refl g⟩
  | cons file files ih =>
    unfold addFiles at h
    cases hadd : g.addFile file with
    | error error =>
      rw [hadd] at h
      cases h
    | ok g'' =>
      rw [hadd] at h
      obtain ⟨hlegal, hadds⟩ := addFile_eq_ok hadd
      obtain ⟨hrest, s, hadds'⟩ := ih h
      rw [hadds.scope_eq] at hadds'
      refine ⟨fun f hf => ?_, s, hadds.trans hadds'⟩
      rcases List.mem_cons.1 hf with rfl | hf
      · exact hlegal
      · exact hrest f hf

end Generator

/-- Whatever is compiled, the lines are those of the code of the program, with comments between them
in which no line ends. -/
theorem compile_eq_ok {files : List SourceFile} {bootstrap comments : Bool} {text : List String}
    (h : compile files bootstrap comments = .ok text) :
    (∀ file ∈ files, ∀ i ∈ file.instructions, i.IsLegal) ∧
      ∃ lines, text = lines.map Line.text ∧
        statementsOf lines = codeOf (programOf files bootstrap) ∧ CommentsAreUnbroken lines := by
  unfold compile at h
  -- what starts the program stands in front of all files
  have hstart : ∃ g : Generator, (g.addFiles files).map Generator.lines = .ok text ∧
      ({ comments } : Generator).Adds g (layOut {} (preamble bootstrap))
        (scopeAfter {} (preamble bootstrap)) := by
    cases bootstrap with
    | false => exact ⟨{ comments }, h, .refl _⟩
    | true =>
      rcases hadd : ({ comments } : Generator).addStart with ⟨error | _, g⟩
      · simp only [hadd, if_true] at h
        cases h
      · simp only [hadd, if_true] at h
        obtain ⟨lines, hx, hcomments, hcode⟩ := Generator.add_eq_ok hadd
        obtain ⟨hlines, hunbroken, hscope⟩ := Emitter.start_eq_ok hx
        refine ⟨g, h, hcomments, hscope, ?_, fun hg => hcode ▸ hg.append hunbroken⟩
        rw [hcode, statementsOf_append, hlines, preamble, if_pos rfl, layOut, layOut, codeOf_cons,
          codeOf_nil, List.append_nil]
        rfl
  obtain ⟨g, htext, hadds⟩ := hstart
  cases hfiles : g.addFiles files with
  | error error =>
    rw [hfiles] at htext
    cases htext
  | ok g' =>
    rw [hfiles] at htext
    injection htext with htext
    obtain ⟨hlegal, s, hadds'⟩ := Generator.addFiles_eq_ok hfiles
    rw [hadds.scope_eq] at hadds'
    have hall := hadds.trans hadds'
    exact ⟨hlegal, g'.code.toList, htext.symm, hall.code_eq,
      hall.unbroken (commentsAreUnbroken_map [])⟩

end HackToolchain.VM
