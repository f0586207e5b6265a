import HackToolchain.Asm.Assembler
import HackToolchain.Proofs.VM.Names

/-!
# Comments in the code

A program is compiled with comments and without.  The two runs go side by side: the emission of a
comment cannot fail and leaves the scope as it is, so the next command gives the same code or the
same error in both (`Generator.Annotates`).  No statement prints like a comment, and the assembler
reads a comment as nothing, whatever its text.

* `toOption_assemble_filter`: comment lines do not change what a program is assembled into;
* `compile_comments`: with comments and without, compilation fails with the same error or succeeds;
  then the lines that are no comments are the same, and so are the words.
-/

namespace HackToolchain.Asm

open Text

/-! ### Comment lines and the assembler -/

/-- The line starts with two slashes. -/
def isCommentLine (line : String) : Bool :=
  ['/', '/'].isPrefixOf line.toList

theorem Statement.read_of_isCommentLine (number : Nat) {line : String}
    (h : isCommentLine line = true) : Statement.read number line = .ok none := by
  obtain ⟨cs, hcs⟩ := List.isPrefixOf_iff_prefix.1 h
  have htext : line.toList = '/' :: '/' :: cs := hcs.symm
  rw [Statement.read, htext, beforeSlashes_slashes, strip_nil]

theorem Except.cases_of_toOption_eq {ε α : Type} {x y : Except ε α}
    (h : x.toOption = y.toOption) :
    (∃ error error', x = .error error ∧ y = .error error') ∨ ∃ a, x = .ok a ∧ y = .ok a := by
  cases x with
  | error error =>
    cases y with
    | error error' => exact .inl ⟨error, error', rfl, rfl⟩
    | ok b => cases h
  | ok a =>
    cases y with
    | error error => cases h
    | ok b =>
      injection h with h
      subst h
      exact .inr ⟨a, rfl, rfl⟩

/-- The number of a line only shows in errors. -/
theorem Statement.toOption_read (number other : Nat) (line : String) :
    (Statement.read number line).toOption = (Statement.read other line).toOption := by
  -- each form of a statement hands the number on to its errors alone
  have haddress (cs : List Char) :
      (Address.read number cs).toOption = (Address.read other cs).toOption := by
    unfold Address.read
    grind [Except.toOption]
  have hlabel (cs : List Char) :
      (readLabel number cs).toOption = (readLabel other cs).toOption := by
    unfold readLabel
    grind [Except.toOption]
  have hcompute (cs : List Char) :
      (Compute.read number cs).toOption = (Compute.read other cs).toOption := by
    unfold Compute.read
    dsimp only
    cases Comp.ofText? _ with
    | none => rfl
    | some comp =>
      dsimp only
      cases Jump.ofText? _ with
      | none => rfl
      | some jump =>
        dsimp only
        cases Dest.ofText? _ with
        | none => rfl
        | some dest => rfl
  have hmap {α β : Type} {f : α → β} {x y : Except Error α} (h : x.toOption = y.toOption) :
      (x.map f).toOption = (y.map f).toOption := by
    rcases Except.cases_of_toOption_eq h with ⟨_, _, rfl, rfl⟩ | ⟨a, rfl, rfl⟩
    · rfl
    · rfl
  unfold Statement.read
  split
  · rfl
  · exact hmap (haddress _)
  · exact hmap (hlabel _)
  · exact hmap (hcompute _)

theorem toOption_readStatements_go_filter (number other : Nat) (done : Array Statement)
    (lines : List String) :
    (readStatements.go number done (lines.filter fun line => !isCommentLine line)).toOption =
      (readStatements.go other done lines).toOption := by
  induction lines generalizing number other done with
  | nil => rfl
  | cons line lines ih =>
    cases hline : isCommentLine line with
    | true =>
      rw [List.filter_cons_of_neg (by rw [hline]; decide), readStatements.go,
        Statement.read_of_isCommentLine other hline]
      exact ih _ _ _
    | false =>
      rw [List.filter_cons_of_pos (by rw [hline]; rfl), readStatements.go, readStatements.go]
      -- the line has another number among the lines that are left
      rcases Except.cases_of_toOption_eq (Statement.toOption_read number other line) with
        ⟨error, error', hread, hread'⟩ | ⟨x, hread, hread'⟩
      · rw [hread, hread']
        rfl
      · rw [hread, hread']
        cases x with
        | none => exact ih _ _ _
        | some x => exact ih _ _ _

/-- Comment lines do not change what a program is assembled into. -/
theorem toOption_assemble_filter (lines : List String) :
    (assemble (lines.filter fun line => !isCommentLine line)).toOption =
      (assemble lines).toOption := by
  unfold assemble readStatements
  rcases Except.cases_of_toOption_eq (toOption_readStatements_go_filter 1 1 #[] lines) with
    ⟨error, error', hread, hread'⟩ | ⟨program, hread, hread'⟩
  · rw [hread, hread']
    rfl
  · rw [hread, hread']

end HackToolchain.Asm

namespace HackToolchain.VM

open Asm Text

/-! ### Lines -/

/-- The line is a statement. -/
def Line.isStatement : Line → Bool
  | .comment _ => false
  | .statement _ => true

/-- No statement prints like a comment. -/
theorem isCommentLine_text_statement (x : Statement) : isCommentLine x.text = false := by
  unfold isCommentLine
  cases x with
  | address a =>
    rw [Statement.toList_text_address]
    rfl
  | label name =>
    rw [Statement.toList_text_label]
    rfl
  | compute k =>
    obtain ⟨c, cs, htext, -⟩ := k.exists_text_eq_cons
    have hslash : c ≠ '/' := by
      rintro rfl
      exact absurd (Compute.mem_text (htext ▸ List.mem_cons_self)) (by decide)
    rw [Statement.text, htext, List.isPrefixOf_cons_cons, beq_eq_false_iff_ne.2 hslash.symm,
      Bool.false_and]

theorem isCommentLine_text (line : Line) : isCommentLine line.text = !line.isStatement := by
  cases line with
  | comment text =>
    rw [isCommentLine, Line.toList_text_comment]
    rfl
  | statement x => exact isCommentLine_text_statement x

theorem filter_map_text (lines : List Line) :
    (lines.map Line.text).filter (fun line => !isCommentLine line) =
      (lines.filter Line.isStatement).map Line.text := by
  rw [List.filter_map]
  congr 2
  funext line
  rw [Function.comp_apply, isCommentLine_text, Bool.not_not]

theorem filter_isStatement_map (code : List Statement) :
    (code.map Line.statement).filter Line.isStatement = code.map Line.statement :=
  List.filter_eq_self.2 fun line hline => by
    obtain ⟨x, -, rfl⟩ := List.mem_map.1 hline
    rfl

/-! ### Emitters -/

/-- What has been emitted with comments, and what has been emitted without: they end in the same
way, and if they end well, in the same scope and with the same statements. -/
structure Emission.Annotates {α : Type} (x y : Emission α) : Prop where
  result_eq : x.result = y.result
  scope_eq {a : α} (h : y.result = .ok a) : x.scope = y.scope
  lines_eq {a : α} (h : y.result = .ok a) : x.lines.filter Line.isStatement = y.lines

namespace Emitter

theorem annotates_comment {α : Type} (text : String) {x : Emitter α} {s : Scope}
    (hx : ∀ lines s' a, x s = ⟨lines, s', .ok a⟩ →
      ∃ code : List Statement, lines = code.map .statement) :
    (andThen (emit [.comment text]) (fun _ => x) s).Annotates (x s) := by
  rcases hxs : x s with ⟨lines, s', result⟩
  have heq : andThen (emit [.comment text]) (fun _ => x) s =
      ⟨.comment text :: lines, s', result⟩ := by
    simp only [andThen, emit, hxs, List.singleton_append]
  rw [heq]
  refine ⟨rfl, fun _ => rfl, fun {a} h => ?_⟩
  obtain rfl : result = .ok a := h
  obtain ⟨code, rfl⟩ := hx _ _ _ hxs
  exact filter_isStatement_map code

/-- A command has the same code behind its comment as without one. -/
theorem command_annotates (c : Command) (s : Scope) :
    (command true c s).Annotates (command false c s) := by
  have hplain : command false c s = plainCommand c s := by
    rw [command, bind_eq, commandComment, if_neg Bool.false_ne_true, done_andThen]
  rw [hplain]
  refine annotates_comment c.text fun lines s' _ h => ?_
  obtain ⟨i, -, -, hlines, -⟩ := plainCommand_eq_ok h
  exact ⟨_, hlines⟩

/-- So has the code that starts a program. -/
theorem start_annotates (s : Scope) : (start true s).Annotates (start false s) := by
  refine annotates_comment "bootstrap" (x := start false) fun lines s' _ h => ?_
  unfold start at h
  rw [if_neg Bool.false_ne_true] at h
  simp only [bind_eq, andThen_eq_ok_iff, statements_eq_ok_iff] at h
  obtain ⟨_, _, _, _, ⟨rfl, rfl⟩, hcall, rfl⟩ := h
  obtain ⟨rfl, -⟩ := call_eq_ok hcall
  exact ⟨_, List.map_append.symm⟩

end Emitter

/-! ### Generators -/

namespace Generator

/-- Two generators in the same scope, the first of which has collected the code of the second one
and comments between its lines. -/
structure Annotates (g g' : Generator) : Prop where
  comments_eq : g.comments = true
  comments_eq' : g'.comments = false
  scope_eq : g.scope = g'.scope
  code_eq : g.code.toList.filter Line.isStatement = g'.code.toList

/-- Two steps of generators stop with the same error, or the generators behind them have the same
code up to comments. -/
inductive Agree {ε : Type} : Except ε Unit × Generator → Except ε Unit × Generator → Prop
  /-- Both stop. -/
  | error (error : ε) (g g' : Generator) : Agree (.error error, g) (.error error, g')
  /-- Both go on. -/
  | ok {g g' : Generator} (h : g.Annotates g') : Agree (.ok (), g) (.ok (), g')

variable {g g' : Generator}

theorem Annotates.filter_lines (h : g.Annotates g') :
    (g.lines.filter fun line => !isCommentLine line) = g'.lines := by
  rw [Generator.lines, filter_map_text, h.code_eq, Generator.lines]

theorem Annotates.add (h : g.Annotates g') {x y : Emitter Unit}
    (hxy : ∀ s, (x s).Annotates (y s)) : Agree (g.add x) (g'.add y) := by
  have hs := hxy g'.scope
  unfold Generator.add
  rw [h.scope_eq]
  rcases hx : x g'.scope with ⟨lines, s, r⟩
  rcases hy : y g'.scope with ⟨lines', s', error | ⟨⟩⟩
  · rw [hx, hy] at hs
    obtain rfl : r = .error error := hs.result_eq
    exact .error error _ _
  · rw [hx, hy] at hs
    obtain rfl : r = .ok () := hs.result_eq
    refine .ok ⟨h.comments_eq, h.comments_eq', hs.scope_eq rfl, ?_⟩
    rw [Array.toList_appendList, List.filter_append, h.code_eq, hs.lines_eq rfl,
      Array.toList_appendList]

theorem Annotates.addStart (h : g.Annotates g') : Agree g.addStart g'.addStart := by
  unfold Generator.addStart
  rw [h.comments_eq, h.comments_eq']
  exact h.add Emitter.start_annotates

theorem Annotates.addCommand (h : g.Annotates g') (c : Command) :
    Agree (g.addCommand c) (g'.addCommand c) := by
  unfold Generator.addCommand
  rw [h.comments_eq, h.comments_eq']
  exact h.add (Emitter.command_annotates c)

theorem Annotates.addCommands (h : g.Annotates g') (cs : List Command) :
    Agree (g.addCommands cs) (g'.addCommands cs) := by
  induction cs generalizing g g' with
  | nil => exact .ok h
  | cons c cs ih =>
    have hstep := h.addCommand c
    unfold Generator.addCommands
    revert hstep
    generalize g.addCommand c = x, g'.addCommand c = y
    rintro (⟨error, f, f'⟩ | hstep)
    · exact .error (c, error) f f'
    · exact ih hstep

theorem Annotates.enterUnit (h : g.Annotates g') (name : String) :
    (g.enterUnit name).Annotates (g'.enterUnit name) := by
  refine ⟨h.comments_eq, h.comments_eq', ?_, h.code_eq⟩
  rw [Generator.enterUnit, Generator.enterUnit, h.scope_eq]

/-- A file that cannot be compiled stops both generators with the same error. -/
theorem Annotates.addFile (h : g.Annotates g') (file : SourceFile) :
    (∃ error, g.addFile file = .error error ∧ g'.addFile file = .error error) ∨
      ∃ f f', g.addFile file = .ok f ∧ g'.addFile file = .ok f' ∧ f.Annotates f' := by
  unfold Generator.addFile
  cases textOfFile file.bytes with
  | error fault => exact .inl ⟨_, rfl, rfl⟩
  | ok source =>
    dsimp only
    cases readCommands source with
    | error error => exact .inl ⟨_, rfl, rfl⟩
    | ok cs =>
      have hadd := (h.enterUnit file.path.stem).addCommands cs
      dsimp only
      revert hadd
      generalize (g.enterUnit file.path.stem).addCommands cs = x,
        (g'.enterUnit file.path.stem).addCommands cs = y
      rintro (⟨⟨c, error⟩, f, f'⟩ | hadd)
      · exact .inl ⟨_, rfl, rfl⟩
      · exact .inr ⟨_, _, rfl, rfl, hadd⟩

theorem Annotates.addFiles (h : g.Annotates g') (files : List SourceFile) :
    (∃ error, g.addFiles files = .error error ∧ g'.addFiles files = .error error) ∨
      ∃ f f', g.addFiles files = .ok f ∧ g'.addFiles files = .ok f' ∧ f.Annotates f' := by
  induction files generalizing g g' with
  | nil => exact .inr ⟨g, g', rfl, rfl, h⟩
  | cons file files ih =>
    unfold Generator.addFiles
    rcases h.addFile file with ⟨error, hg, hg'⟩ | ⟨f, f', hg, hg', hf⟩
    · rw [hg, hg']
      exact .inl ⟨error, rfl, rfl⟩
    · rw [hg, hg']
      exact ih hf

end Generator

/-! ### Programs -/

/-- Comments do not change a program.  With comments and without, compilation fails with the same
error, or it succeeds.  Then the code with comments becomes the code without when the lines that
start with two slashes are deleted, and the assembler makes the same words of both or of neither. -/
theorem compile_comments (files : List SourceFile) (bootstrap : Bool) :
    (∃ error, compile files bootstrap true = .error error ∧
      compile files bootstrap false = .error error) ∨
    ∃ annotated plain, compile files bootstrap true = .ok annotated ∧
      compile files bootstrap false = .ok plain ∧
      (annotated.filter fun line => !isCommentLine line) = plain ∧
      (assemble annotated).toOption = (assemble plain).toOption := by
  have hfiles {g g' : Generator} (h : g.Annotates g') :
      (∃ error, (g.addFiles files).map Generator.lines = .error error ∧
        (g'.addFiles files).map Generator.lines = .error error) ∨
      ∃ annotated plain, (g.addFiles files).map Generator.lines = .ok annotated ∧
        (g'.addFiles files).map Generator.lines = .ok plain ∧
        (annotated.filter fun line => !isCommentLine line) = plain ∧
        (assemble annotated).toOption = (assemble plain).toOption := by
    rcases h.addFiles files with ⟨error, hg, hg'⟩ | ⟨f, f', hg, hg', hf⟩
    · exact .inl ⟨error, by rw [hg]; rfl, by rw [hg']; rfl⟩
    · exact .inr ⟨f.lines, f'.lines, by rw [hg]; rfl, by rw [hg']; rfl, hf.filter_lines,
        hf.filter_lines ▸ (toOption_assemble_filter f.lines).symm⟩
  have hempty : ({ comments := true } : Generator).Annotates { comments := false } :=
    ⟨rfl, rfl, rfl, rfl⟩
  cases bootstrap with
  | false => exact hfiles hempty
  | true =>
    -- the two generators may stop before the first file, with the same error
    have hstart := hempty.addStart
    unfold compile
    revert hstart
    dsimp only
    generalize ({ comments := true } : Generator).addStart = x,
      ({ comments := false } : Generator).addStart = y
    rintro (⟨error, g, g'⟩ | hstart)
    · exact .inl ⟨.internal error, rfl, rfl⟩
    · exact hfiles hstart

end HackToolchain.VM
