import HackToolchain.Proofs.Text.Token
import HackToolchain.Proofs.VM.Compilation

/-!
# Where a compilation fails

Every line with something on it in front of its comment holds a command, and no emitter stops with
an error that shows a fault of the compiler.  So files that hold texts are compiled, or the first
command that is rejected stops the compilation, with an error that names its file and its line.

* `readCommands_eq`: the commands of a source text can always be read;
* `Command.StandsAt`: where a command stands among all lines of a text;
* `Emitter.blames_command`: an error at a command is a fault of the program;
* `compile_located`: if files that hold texts cannot be compiled, the error is at the first command
  that is rejected.
-/

namespace HackToolchain.VM

open Text Code

/-! ### Reading commands -/

/-- The command on a line. -/
def NumberedLine.command (line : NumberedLine) : Command :=
  ⟨line.text, (kindOf line.text).toOption.getD .arithmetic, line.number⟩

/-- Something is left of a line when its comment and the blanks around it are gone. -/
def holdsCommand (line : List Char) : Bool :=
  !(strip (beforeSlashes line)).isEmpty

/-- A line that holds a command is one of the lines of the text, and has as many lines with commands
before it as it has among those. -/
theorem exists_of_commandLines_eq {source : String} {before after : List NumberedLine}
    {line : NumberedLine} (h : commandLines source = before ++ line :: after) :
    ∃ front raw back, splitLines source.toList = front ++ raw :: back ∧
      front.countP holdsCommand = before.length ∧ strip (beforeSlashes raw) ≠ [] ∧
      line = ⟨String.ofList (strip (beforeSlashes raw)), front.length + 1⟩ := by
  unfold commandLines at h
  -- the commands are what a filter leaves of the lines, so that their split is one of the lines
  obtain ⟨xs, ys, hxy, hbefore, hrest⟩ := List.filterMap_eq_append_iff.1 h
  obtain ⟨us, ⟨raw, number⟩, vs, rfl, hnone, hline, -⟩ := List.filterMap_eq_cons_iff.1 hrest
  rw [← List.append_assoc] at hxy
  obtain ⟨front, tail, hsplit, hfront, htail⟩ := List.zipIdx_eq_append_iff.1 hxy
  obtain ⟨raw, back, rfl, heq, -⟩ := List.zipIdx_eq_cons_iff.1 htail.symm
  injection heq with hraw hnumber
  subst hraw hnumber
  refine ⟨front, _, back, hsplit, ?_, ?_⟩
  · -- the lines in front of `raw` that hold a command are those in `xs`
    rw [← hbefore, ← List.append_nil (xs.filterMap _), ← List.filterMap_eq_nil_iff.2 hnone,
      ← List.filterMap_append, hfront, List.length_filterMap_eq_countP]
    conv_lhs => rw [← List.zipIdx_map_fst 1 front, List.countP_map]
    refine congrArg (List.countP · _) (funext fun (line, number) => ?_)
    simp only [Function.comp_apply, holdsCommand]
    cases strip (beforeSlashes line) with
    | nil => rfl
    | cons c cs => rfl
  · dsimp only at hline
    split at hline
    · cases hline
    · rename_i hstrip
      injection hline with hline
      rw [← hline, Nat.add_comm 1]
      exact ⟨hstrip, rfl⟩

/-- A line that holds a command can be read. -/
theorem ofText_of_mem_commandLines {source : String} {line : NumberedLine}
    (h : line ∈ commandLines source) : Command.ofText line.text line.number = .ok line.command := by
  obtain ⟨before, after, hsplit⟩ := List.append_of_mem h
  obtain ⟨front, raw, back, -, -, hne, rfl⟩ := exists_of_commandLines_eq hsplit
  have hstrip : String.ofList (strip (String.ofList (strip (beforeSlashes raw))).toList) =
      String.ofList (strip (beforeSlashes raw)) := by
    rw [String.toList_ofList, strip_strip]
  have hkind : kindOf (String.ofList (strip (beforeSlashes raw))) =
      .ok ((kindOf (String.ofList (strip (beforeSlashes raw)))).toOption.getD .arithmetic) := by
    unfold kindOf
    rw [String.toList_ofList]
    cases htokens : tokens (strip (beforeSlashes raw)) with
    | nil => exact absurd htokens (tokens_strip_ne_nil hne)
    | cons token rest => rfl
  rw [Command.ofText]
  dsimp only
  rw [hstrip, hkind]
  rfl

theorem mapM_eq_ok_map {ε α β : Type} {f : α → Except ε β} {g : α → β} {xs : List α}
    (h : ∀ x ∈ xs, f x = .ok (g x)) : xs.mapM f = .ok (xs.map g) := by
  induction xs with
  | nil => rfl
  | cons x xs ih =>
    rw [List.mapM_cons, h x List.mem_cons_self, ih fun y hy => h y (List.mem_cons_of_mem x hy)]
    rfl

/-- The commands of a source text can always be read. -/
theorem readCommands_eq (source : String) :
    readCommands source = .ok ((commandLines source).map NumberedLine.command) :=
  mapM_eq_ok_map fun _ => ofText_of_mem_commandLines

/-- The command is what a source text has on the line whose number it carries, and `n` of the lines
before that one hold commands. -/
def Command.StandsAt (c : Command) (source : String) (n : Nat) : Prop :=
  ∃ front raw back, splitLines source.toList = front ++ raw :: back ∧
    c.line = front.length + 1 ∧ c.text.toList = strip (beforeSlashes raw) ∧
    holdsCommand raw = true ∧ front.countP holdsCommand = n

theorem standsAt_of_readCommands {source : String} {cs ds : List Command} {c : Command}
    (h : readCommands source = .ok (cs ++ c :: ds)) : c.StandsAt source cs.length := by
  rw [readCommands_eq, Except.ok.injEq] at h
  obtain ⟨before, rest, hsplit, rfl, hrest⟩ := List.map_eq_append_iff.1 h
  obtain ⟨line, after, rfl, rfl, -⟩ := List.map_eq_cons_iff.1 hrest
  obtain ⟨front, raw, back, hlines, hcount, hne, rfl⟩ := exists_of_commandLines_eq hsplit
  refine ⟨front, raw, back, hlines, rfl, String.toList_ofList, ?_, ?_⟩
  · rw [holdsCommand, List.isEmpty_eq_false_iff.2 hne]
    rfl
  · rw [hcount, List.length_map]

/-! ### Errors of emitters -/

namespace Emitter

variable {α β : Type}

/-- Whatever stops the emitter is a fault of the program. -/
def BlamesProgram (x : Emitter α) : Prop :=
  ∀ s error, (x s).result = .error error → error.isInternal = false

theorem blames_done (value : α) : (done value).BlamesProgram :=
  fun _ _ h => nomatch h

theorem blames_fail {error : EmitError} (h : error.isInternal = false) :
    (fail error : Emitter α).BlamesProgram := by
  rintro s _ ⟨⟩
  exact h

theorem blames_emit (lines : List Line) : (emit lines).BlamesProgram :=
  fun _ _ h => nomatch h

theorem blames_statements (code : List Asm.Statement) : (statements code).BlamesProgram :=
  blames_emit _

theorem blames_scope : scope.BlamesProgram :=
  fun _ _ h => nomatch h

theorem blames_setScope (scope : Scope) : (setScope scope).BlamesProgram :=
  fun _ _ h => nomatch h

theorem BlamesProgram.andThen {x : Emitter α} {f : α → Emitter β} (hx : x.BlamesProgram)
    (hf : ∀ value, (f value).BlamesProgram) : (andThen x f).BlamesProgram := by
  intro s error h
  unfold Emitter.andThen at h
  rcases hxs : x s with ⟨lines, t, fault | value⟩
  · rw [hxs] at h
    injection h with h
    rw [← h]
    exact hx s fault (by rw [hxs])
  · rw [hxs] at h
    exact hf value t error h

theorem blames_ofExcept {ε : Type} {wrap : ε → EmitError}
    (hwrap : ∀ error, (wrap error).isInternal = false) (x : Except ε α) :
    (ofExcept wrap x).BlamesProgram := by
  cases x with
  | ok value => exact blames_done value
  | error error => exact blames_fail (hwrap error)

theorem blames_numeral (n : Int) : (numeral n).BlamesProgram :=
  blames_ofExcept (fun _ => rfl) _

theorem blames_checkNumeral (n : Int) : (checkNumeral n).BlamesProgram :=
  (blames_numeral n).andThen fun _ => blames_done ()

theorem blames_checkIndex (area : Area) (index : Int) : (checkIndex area index).BlamesProgram := by
  unfold checkIndex
  split
  · exact blames_done ()
  · exact (blames_numeral index).andThen fun _ => blames_fail rfl

theorem blames_nextLabel : nextLabel.BlamesProgram :=
  blames_scope.andThen fun s => (blames_setScope _).andThen fun _ => blames_done s.labelsUsed

theorem blames_qualified (label : String) : (qualified label).BlamesProgram :=
  blames_scope.andThen fun _ => blames_done _

/-! ### Errors at commands -/

theorem blames_operation (op : Operation) : (operation op).BlamesProgram := by
  cases op with
  | add | sub | and | or => exact (blames_statements _).andThen fun _ => blames_statements _
  | neg | not => exact blames_statements _
  | eq | gt | lt =>
    exact blames_nextLabel.andThen fun n => (blames_numeral n).andThen fun _ => blames_statements _

theorem blames_arithmetic (text : String) : (arithmetic text).BlamesProgram := by
  unfold arithmetic
  split
  · exact blames_operation _
  · exact blames_fail rfl

/-- The address of a cell is asked for only where it is known. -/
theorem blames_knownAddress {segment : Segment} (hbase : segment.base? = none)
    (hconstant : segment ≠ .constant) (index : Int) :
    (knownAddress segment index).BlamesProgram := by
  cases segment with
  | temp | pointer => exact (blames_checkIndex _ index).andThen fun _ => blames_done _
  | static =>
    exact (blames_numeral index).andThen fun _ => blames_scope.andThen fun _ => blames_done _
  | constant => contradiction
  | «local» | argument | this | that => cases hbase

theorem blames_push (segment : Segment) (index : Int) : (push segment index).BlamesProgram := by
  cases segment with
  | constant =>
    exact (blames_checkIndex _ index).andThen fun _ => (blames_statements _).andThen fun _ =>
      blames_statements _
  | «local» | argument | this | that =>
    exact (blames_checkNumeral index).andThen fun _ => (blames_statements _).andThen fun _ =>
      blames_statements _
  | temp | pointer | static =>
    exact (blames_knownAddress rfl (by decide) index).andThen fun _ =>
      (blames_statements _).andThen fun _ => blames_statements _

theorem blames_pop (segment : Segment) (index : Int) : (pop segment index).BlamesProgram := by
  cases segment with
  | constant => exact BlamesProgram.andThen (blames_fail rfl) fun _ => blames_statements popToTarget
  | «local» | argument | this | that =>
    exact (blames_checkNumeral index).andThen fun _ => (blames_statements _).andThen fun _ =>
      blames_statements _
  | temp | pointer | static =>
    exact (blames_knownAddress rfl (by decide) index).andThen fun _ =>
      (blames_statements _).andThen fun _ => blames_statements _

theorem blames_segment (name : String) : (segment name).BlamesProgram := by
  unfold segment
  split
  · exact blames_done _
  · exact blames_fail rfl

theorem blames_access (kind : Kind) (name : String) (index : Int) :
    (access kind name index).BlamesProgram := by
  refine (blames_segment name).andThen fun segment => ?_
  split
  · exact blames_push segment index
  · exact blames_pop segment index
  · exact blames_fail rfl

theorem blames_call (name : String) (arguments : Int) : (call name arguments).BlamesProgram :=
  blames_nextLabel.andThen fun n => (blames_numeral n).andThen fun _ =>
    (blames_statements _).andThen fun _ => (blames_statements _).andThen fun _ =>
      (blames_checkNumeral _).andThen fun _ => (blames_statements _).andThen fun _ =>
        (blames_statements _).andThen fun _ => blames_statements _

theorem blames_function (name : String) (locals : Int) : (function name locals).BlamesProgram :=
  blames_scope.andThen fun _ => (blames_setScope _).andThen fun _ => blames_statements _

theorem blames_argumentOf (c : Command) : (argumentOf c).BlamesProgram :=
  blames_ofExcept (fun _ => rfl) _

theorem blames_countOf (c : Command) : (countOf c).BlamesProgram :=
  blames_ofExcept (fun _ => rfl) _

/-- An error at a command is a fault of the program. -/
theorem blames_plainCommand (c : Command) : (plainCommand c).BlamesProgram := by
  unfold plainCommand
  split
  · exact (blames_argumentOf c).andThen blames_arithmetic
  · exact (blames_argumentOf c).andThen fun _ => (blames_countOf c).andThen (blames_access _ _)
  · exact (blames_argumentOf c).andThen fun _ => (blames_countOf c).andThen (blames_access _ _)
  · exact (blames_argumentOf c).andThen fun _ => (blames_qualified _).andThen fun _ =>
      blames_statements _
  · exact (blames_argumentOf c).andThen fun _ => (blames_qualified _).andThen fun _ =>
      blames_statements _
  · exact (blames_argumentOf c).andThen fun _ => (blames_statements _).andThen fun _ =>
      (blames_qualified _).andThen fun _ => blames_statements _
  · exact (blames_argumentOf c).andThen fun _ => (blames_countOf c).andThen (blames_function _)
  · exact (blames_argumentOf c).andThen fun _ => (blames_countOf c).andThen (blames_call _)
  · exact blames_statements _

theorem blames_command (comments : Bool) (c : Command) : (command comments c).BlamesProgram := by
  refine BlamesProgram.andThen ?_ fun _ => blames_plainCommand c
  unfold commandComment
  split
  · exact blames_emit _
  · exact blames_done ()

end Emitter

/-! ### Generators -/

namespace Generator

variable {g g' : Generator}

theorem isInternal_of_addCommand {c : Command} {error : EmitError}
    (h : g.addCommand c = (.error error, g')) : error.isInternal = false := by
  apply Emitter.blames_command g.comments c g.scope
  unfold addCommand add at h
  injection h

/-- If commands cannot be added, those before one of them are taken and that one is rejected. -/
theorem exists_of_addCommands_eq_error {cs : List Command} {c : Command} {error : EmitError}
    (h : g.addCommands cs = (.error (c, error), g')) :
    ∃ before after g₁, cs = before ++ c :: after ∧ g.addCommands before = (.ok (), g₁) ∧
      g₁.addCommand c = (.error error, g') := by
  induction cs generalizing g with
  | nil => cases h
  | cons d cs ih =>
    unfold addCommands at h
    rcases hadd : g.addCommand d with ⟨fault | _, g₁⟩
    · -- the first command is the rejected one
      rw [hadd] at h
      injection h with hresult hg
      injection hresult with hpair
      injection hpair with hd hfault
      subst hd hg hfault
      exact ⟨[], cs, g, rfl, rfl, hadd⟩
    · -- the rejected one comes later, with the first one in front of it
      rw [hadd] at h
      obtain ⟨before, after, g₂, rfl, hbefore, hc⟩ := ih h
      refine ⟨d :: before, after, g₂, rfl, ?_, hc⟩
      rw [addCommands, hadd]
      exact hbefore

/-- The generator comes to a command that it rejects, after it has taken the files before that file
and the commands before that command.  The command stands on the line that it says. -/
inductive StopsAt (g : Generator) (files : List SourceFile) :
    SourceFile → Command → EmitError → Prop
  | intro {before after : List SourceFile} {file : SourceFile} {source : String}
      {cs ds : List Command} {c : Command} {error : EmitError} {g₁ g₂ : Generator}
      (files_eq : files = before ++ file :: after)
      (before_taken : g.addFiles before = .ok g₁)
      (text_eq : textOfFile file.bytes = .ok source)
      (commands_eq : readCommands source = .ok (cs ++ c :: ds))
      (commands_taken : (g₁.enterUnit file.path.stem).addCommands cs = (.ok (), g₂))
      (rejected : (g₂.addCommand c).1 = .error error)
      (stands : c.StandsAt source cs.length) :
      StopsAt g files file c error

/-- A file that holds a text is added, or one of its commands is rejected. -/
theorem addFile_located {file : SourceFile} {source : String}
    (hsource : textOfFile file.bytes = .ok source) (files : List SourceFile) :
    (∃ g', g.addFile file = .ok g') ∨
      ∃ c error, g.addFile file = .error (.located file.path.name c.line error) ∧
        g.StopsAt (file :: files) file c error := by
  unfold addFile
  rw [hsource]
  dsimp only
  rw [readCommands_eq]
  dsimp only
  rcases hadd : (g.enterUnit file.path.stem).addCommands
    ((commandLines source).map NumberedLine.command) with ⟨⟨c, error⟩ | _, g'⟩
  · obtain ⟨cs, ds, g₁, hcs, htaken, hc⟩ := exists_of_addCommands_eq_error hadd
    have hread := readCommands_eq source
    rw [hcs] at hread
    refine .inr ⟨c, error, ?_, .intro (List.nil_append _).symm rfl hsource hread htaken
      (by rw [hc]) (standsAt_of_readCommands hread)⟩
    dsimp only
    rw [CompileError.at, isInternal_of_addCommand hc, if_neg Bool.false_ne_true]
  · exact .inl ⟨g', rfl⟩

/-- Files that hold texts are added, or a command of one of them is rejected. -/
theorem addFiles_located {files : List SourceFile}
    (hfiles : ∀ file ∈ files, ∃ source, textOfFile file.bytes = .ok source) :
    (∃ g', g.addFiles files = .ok g') ∨
      ∃ file c error, g.addFiles files = .error (.located file.path.name c.line error) ∧
        g.StopsAt files file c error := by
  induction files generalizing g with
  | nil => exact .inl ⟨g, rfl⟩
  | cons file files ih =>
    obtain ⟨source, hsource⟩ := hfiles file List.mem_cons_self
    unfold addFiles
    rcases addFile_located (g := g) hsource files with ⟨g₁, hfile⟩ | ⟨c, error, hfile, hstops⟩
    · rcases ih (g := g₁) fun other hother => hfiles other (List.mem_cons_of_mem file hother) with
        ⟨g', hrest⟩ | ⟨other, c, error, hrest, hstops⟩
      · exact .inl ⟨g', by rw [hfile]; exact hrest⟩
      · refine .inr ⟨other, c, error, by rw [hfile]; exact hrest, ?_⟩
        obtain ⟨rfl, hbefore, htext, hcommands, htaken, hrejected, hstands⟩ := hstops
        refine .intro List.cons_append.symm ?_ htext hcommands htaken hrejected hstands
        rw [addFiles, hfile]
        exact hbefore
    · exact .inr ⟨file, c, error, by rw [hfile]; rfl, hstops⟩

end Generator

/-! ### Programs -/

/-- The generator in front of the first file. -/
def opening (bootstrap comments : Bool) : Generator :=
  if bootstrap then (Generator.addStart { comments }).2 else { comments }

theorem addStart_eq_opening (comments : Bool) :
    Generator.addStart { comments } = (.ok (), opening true comments) := by
  have hstart : (Generator.addStart { comments }).1 = .ok () := by
    cases comments with
    | false => decide +kernel
    | true => decide +kernel
  exact Prod.ext hstart rfl

/-- The code that starts a program is always emitted. -/
theorem compile_eq_addFiles (files : List SourceFile) (bootstrap comments : Bool) :
    compile files bootstrap comments =
      ((opening bootstrap comments).addFiles files).map Generator.lines := by
  cases bootstrap with
  | false => rfl
  | true =>
    unfold compile
    rw [if_pos rfl, addStart_eq_opening]
    rfl

/-- Files that hold texts are compiled, or the first command that is rejected, in the order of the
files and of the lines in them, stops the compilation.  The message then starts with the name of the
file and the number of the line. -/
theorem compile_located {files : List SourceFile}
    (hfiles : ∀ file ∈ files, ∃ source, textOfFile file.bytes = .ok source)
    (bootstrap comments : Bool) :
    (∃ g, (opening bootstrap comments).addFiles files = .ok g ∧
        compile files bootstrap comments = .ok g.lines) ∨
      ∃ file c reason failure, (opening bootstrap comments).StopsAt files file c reason ∧
        compile files bootstrap comments = .error failure ∧
        failure = .located file.path.name c.line reason ∧
        failure.message = file.path.name ++ ":" ++ toString c.line ++ ": " ++ reason.message := by
  rw [compile_eq_addFiles]
  rcases Generator.addFiles_located (g := opening bootstrap comments) hfiles with
    ⟨g, hadd⟩ | ⟨file, c, error, hadd, hstops⟩
  · exact .inl ⟨g, hadd, by rw [hadd]; rfl⟩
  · exact .inr ⟨file, c, error, _, hstops, by rw [hadd]; rfl, rfl, rfl⟩

/-- Two units.  The second pops into a constant behind a comment and an empty line. -/
def unitsWithError : List SourceFile :=
  [⟨.ofText "A.vm", "push constant 1\n".toUTF8⟩,
    ⟨.ofText "B.vm", "// nothing\n\npop constant 0\npop constant 1\n".toUTF8⟩]

theorem compile_located_unitsWithError :
    (∀ file ∈ unitsWithError, ∃ source, textOfFile file.bytes = .ok source) ∧
      ∃ file c reason failure, (opening true false).StopsAt unitsWithError file c reason ∧
        compile unitsWithError true false = .error failure ∧
        failure.message = "B.vm:3: pop constant is invalid" := by
  have htexts : ∀ file ∈ unitsWithError, ∃ source, textOfFile file.bytes = .ok source := by
    intro file hfile
    have hok : ∀ file ∈ unitsWithError, (textOfFile file.bytes).isOk = true := by
      decide +kernel
    cases hsource : textOfFile file.bytes with
    | error fault => exact absurd (hok file hfile) (by rw [hsource]; exact Bool.false_ne_true)
    | ok source => exact ⟨source, rfl⟩
  have herror : compile unitsWithError true false = .error (.located "B.vm" 3 .popConstant) := by
    decide +kernel
  refine ⟨htexts, ?_⟩
  rcases compile_located htexts true false with
    ⟨g, -, hok⟩ | ⟨file, c, reason, failure, hstops, hcompile, -, -⟩
  · rw [herror] at hok
    cases hok
  · refine ⟨file, c, reason, failure, hstops, hcompile, ?_⟩
    rw [herror] at hcompile
    injection hcompile with hcompile
    rw [← hcompile]
    rfl

end HackToolchain.VM
