import HackToolchain.Cli.Commands
import HackToolchain.Files.Changes
import HackToolchain.Proofs.Cli.Session
import HackToolchain.Proofs.Files.Tree

/-!
# What a compilation leaves behind

A compilation has up to three outputs: the code, and on request the binary image and the listing.
They are written in this order after the program has been compiled and assembled.  Until then
nothing is written at all, but an output that cannot be written does not undo those before it.

* `run_outcome`: a run writes all of its outputs, or nothing, or the outputs in front of the first
  one that cannot be written.
-/

namespace HackToolchain.Cli

open Files Text Session

/-- The files of a list, as they are stored. -/
def encoded (files : List (Files.Path × String)) : List (Files.Path × ByteArray) :=
  files.map fun file => (file.1, Utf8.encode file.2)

/-- Files are written up to the first one that cannot be written. -/
theorem Session.writeTexts_cases (files : List (Files.Path × String)) (s : Session) :
    (∃ tree, s.tree.writeAll s.directory (encoded files) = .ok tree ∧
      writeTexts files s = .ok () { s with tree }) ∨
    ∃ written file rest tree fault, files = written ++ file :: rest ∧
      s.tree.writeAll s.directory (encoded written) = .ok tree ∧
      tree.write s.directory file.1 (Utf8.encode file.2) = .error fault ∧
      writeTexts files s = .error (.failure (.file ⟨fault, file.1.text⟩)) { s with tree } := by
  induction files generalizing s with
  | nil => exact .inl ⟨s.tree, rfl, rfl⟩
  | cons file files ih =>
    obtain ⟨path, text⟩ := file
    have hbind : writeTexts ((path, text) :: files) s =
        EStateM.bind (writeText path text) (fun _ => writeTexts files) s := rfl
    rcases writeText_cases path text s with ⟨tree, hwrite, hfirst⟩ | ⟨fault, hwrite, hfirst⟩
    · -- the first file is written, and the others go into the tree that it leaves
      have hrest (written : List (Files.Path × String)) :
          s.tree.writeAll s.directory (encoded ((path, text) :: written)) =
            tree.writeAll s.directory (encoded written) := by
        rw [encoded, List.map_cons, Tree.writeAll, hwrite]
        rfl
      rw [EStateM.bind, hfirst] at hbind
      rcases ih { s with tree } with
        ⟨tree', hall, hrun⟩ | ⟨written, file, rest, tree', fault, rfl, hall, hfail, hrun⟩
      · exact .inl ⟨tree', (hrest files).trans hall, hbind.trans hrun⟩
      · exact .inr ⟨(path, text) :: written, file, rest, tree', fault, rfl,
          (hrest written).trans hall, hfail, hbind.trans hrun⟩
    · -- the first file fails, with the tree as it was
      rw [EStateM.bind, hfirst] at hbind
      exact .inr ⟨[], (path, text), files, s.tree, fault, rfl, rfl, hwrite, hbind⟩

namespace Compile

/-- The files that a request asks for, in the order in which they are written. -/
def outputs (r : Request) (product : Product) : List (Files.Path × String) :=
  (product.output, unlines product.code) ::
    ((r.image.map fun path => (.ofText path, Asm.binaryImage product.words)).toList ++
      (r.listing.map fun path => (.ofText path, Asm.listing product.words)).toList)

/-- Nothing is written while a program is compiled. -/
theorem leaves_produce (r : Request) : Leaves (produce r) := by
  refine (leaves_sources _).bind fun found => (leaves_compile _ _ _).bind fun code => ?_
  dsimp only
  split
  · exact (leaves_assemble code).bind fun words => leaves_pure _
  · exact (leaves_pure []).bind fun words => leaves_pure _

/-- A failure is reported or passed on, and the tree stays as it is. -/
theorem reportError_cases (cause : Failure) (s : Session) :
    ∃ stop s', reportError (.failure cause) s = .error stop s' ∧ stop ≠ .exit 0 ∧
      s'.tree = s.tree := by
  rw [reportError]
  split
  · exact ⟨.exit 1, _, rfl, by decide, rfl⟩
  · exact ⟨.failure cause, s, rfl, by simp, rfl⟩

/-- The message about a program that has been compiled. -/
def summary (product : Product) : String :=
  "Translated " ++ toString product.count ++ " file(s) -> " ++ product.output.text

/-- After the compilation come the outputs, and then a message. -/
theorem perform_eq (r : Request) :
    perform r = tryCatch (produce r) reportError >>= fun product =>
      writeTexts (outputs r product) >>= fun _ => printLine (summary product) := by
  unfold perform
  congr 1
  funext product
  rw [outputs, writeTexts]
  cases r.image <;> cases r.listing <;> simp [writeTexts, summary]

/-- The compilation fails and the tree stays as it is, or the outputs are written. -/
theorem perform_cases (r : Request) (s : Session) :
    (∃ cause stop s', produce r s = .error (.failure cause) s ∧ perform r s = .error stop s' ∧
      stop ≠ .exit 0 ∧ s'.tree = s.tree) ∨
    ∃ product, produce r s = .ok product s ∧
      perform r s = EStateM.bind (writeTexts (outputs r product))
        (fun _ => printLine (summary product)) s := by
  rw [perform_eq]
  rcases leaves_produce r s with ⟨product, hproduce⟩ | ⟨cause, hproduce⟩
  · have hcaught : tryCatch (produce r) reportError s = .ok product s := by
      simp only [tryCatch, tryCatchThe, MonadExceptOf.tryCatch, EStateM.tryCatch, hproduce]
    refine .inr ⟨product, hproduce, ?_⟩
    simp only [bind, EStateM.bind, hcaught]
  · obtain ⟨stop, s', hreport, hstop, htree⟩ := reportError_cases cause s
    have hcaught : tryCatch (produce r) reportError s = .error stop s' := by
      simp only [tryCatch, tryCatchThe, MonadExceptOf.tryCatch, EStateM.tryCatch, hproduce]
      exact hreport
    refine .inl ⟨cause, stop, s', hproduce, ?_, hstop, htree⟩
    simp only [bind, EStateM.bind, hcaught]

/-- The request that some arguments make. -/
def requestOf (arguments : List String) : Except Refusal Request :=
  (grammar.parse arguments).map fun given => given.foldl Request.add {}

/-- How a run ends, and the tree that it leaves. -/
inductive Outcome (arguments : List String) (s : Session) : Ending → Files.Tree → Prop
  /-- The arguments make no request. -/
  | refused {refusal : Refusal} (request : requestOf arguments = .error refusal) :
      Outcome arguments s (.exit (if refusal = .help then 0 else 2)) s.tree
  /-- The program cannot be compiled, and nothing is written. -/
  | stopped {r : Request} {stop : Stop} {ending : Ending} (request : requestOf arguments = .ok r)
      (produced : produce r s = .error stop s) (failed : ending ≠ .exit 0) :
      Outcome arguments s ending s.tree
  /-- All outputs are written. -/
  | completed {r : Request} {product : Product} {tree : Files.Tree}
      (request : requestOf arguments = .ok r) (produced : produce r s = .ok product s)
      (all_written : s.tree.writeAll s.directory (encoded (outputs r product)) = .ok tree) :
      Outcome arguments s (.exit 0) tree
  /-- An output cannot be written.  Those before it stay, and all else is as before. -/
  | broken {r : Request} {product : Product} {written rest : List (Files.Path × String)}
      {file : Files.Path × String} {tree : Files.Tree} {fault : FileFault}
      (request : requestOf arguments = .ok r) (produced : produce r s = .ok product s)
      (outputs_eq : outputs r product = written ++ file :: rest)
      (written_eq : s.tree.writeAll s.directory (encoded written) = .ok tree)
      (failed : tree.write s.directory file.1 (Utf8.encode file.2) = .error fault)
      (elsewhere : ∀ location,
        (∀ file ∈ encoded written, s.tree.locate s.directory file.1 ≠ .ok location) →
          tree.lookup location = s.tree.lookup location) :
      Outcome arguments s (.failure (.file ⟨fault, file.1.text⟩)) tree

/-- A failed run that is asked for the code alone changes nothing. -/
theorem Outcome.tree_eq {arguments : List String} {s : Session} {ending : Ending}
    {tree : Files.Tree} (h : Outcome arguments s ending tree) (hfailed : ending ≠ .exit 0)
    (halone : ∀ r, requestOf arguments = .ok r → r.image = none ∧ r.listing = none) :
    tree = s.tree := by
  cases h with
  | refused request => rfl
  | stopped request produced failed => rfl
  | completed request produced all_written => contradiction
  | broken request produced outputs_eq written_eq failed elsewhere =>
    obtain ⟨himage, hlisting⟩ := halone _ request
    rw [outputs, himage, hlisting] at outputs_eq
    -- the code is the only output, so none is in front of the one that fails
    obtain rfl := (List.append_eq_singleton_iff.1 outputs_eq.symm).elim And.left
      fun h => nomatch h.2
    injection written_eq with htree
    exact htree.symm

/-- A run of the command writes nothing before the whole program has been compiled and assembled; it
then writes its outputs in order, up to the first one that cannot be written. -/
theorem run_outcome (arguments : List String) (s : Session) :
    Outcome arguments s (Command.run command arguments s).1
      (Command.run command arguments s).2.tree := by
  have hcommand : requestOf arguments = (grammar.parse arguments).map fun given =>
      given.foldl Request.add {} := rfl
  unfold Command.run command
  cases hparse : grammar.parse arguments with
  | error refusal =>
    rw [hparse] at hcommand
    cases refusal with
    | help => exact .refused hcommand
    | usage => exact .refused hcommand
  | ok given =>
    rw [hparse] at hcommand
    dsimp only
    -- either nothing is produced, or all that remains is to write the outputs
    rcases perform_cases (given.foldl Request.add {}) s with
      ⟨cause, stop, s', hproduce, hperform, hstop, htree⟩ | ⟨product, hproduce, hperform⟩
    · rw [hperform]
      cases stop with
      | exit code =>
        dsimp only
        rw [htree]
        exact .stopped hcommand hproduce (by simpa using hstop)
      | failure cause =>
        dsimp only
        rw [htree]
        exact .stopped hcommand hproduce (by simp)
    · rw [hperform, EStateM.bind]
      rcases writeTexts_cases (outputs _ product) s with ⟨tree, hall, hwrite⟩ |
        ⟨written, file, rest, tree, fault, houtputs, hwritten, hfail, hwrite⟩
      · rw [hwrite]
        exact .completed hcommand hproduce hall
      · rw [hwrite]
        exact .broken hcommand hproduce houtputs hwritten hfail fun location hother =>
          Tree.lookup_writeAll hwritten hother

/-- A directory with one source file, whose image is asked for in a directory that is not there. -/
def withSource : Session where
  tree := ⟨[(["A.vm"], .file "push constant 7\n".toUTF8)]⟩
  directory := []

/-- The code of the program stays behind when its image cannot be written. -/
theorem code_left_behind :
    let ran := Command.run command ["A.vm", "--hack", "none/A.hack"] withSource
    ran.1 = .failure (.file ⟨.notFound, "none/A.hack"⟩) ∧
      withSource.tree.written ran.2.tree [] =
        [(["A.asm"], "@7\nD=A\n@SP\nA=M\nM=D\n@SP\nM=M+1\n".toUTF8)] := by
  decide +kernel

end Compile

end HackToolchain.Cli
