import HackToolchain.Proofs.Cli.RoundTrip
import HackToolchain.Proofs.Cli.Tracing

/-!
# Comparing changes no file

A comparison puts the code that it runs into a directory of its own, inside that of the record, and
removes this directory again when the run has ended, well or not.  So no file is changed, whatever
the outcome, if there was nothing in that place.  All that can be left are directories on the way
to it.

* `OnlyMakes`: a change of a session that makes some directories, and nothing else;
* `Quiet`: an action that leaves the files as they are, also when it stops;
* `onlyMakes_verify`: what is left by the comparison of one example;
* `onlyMakes_verifyAll`: what is left by that of some examples, by induction on their list;
* `file_run_verify_iff`: a comparison changes no file.
-/

namespace HackToolchain.Cli.Golden

open Files Text Session

variable {α β : Type} {x : Action α} {f : α → Action β} {made made' : Location → Prop}
variable {out place : Location} {r : Request} {e : Example} {list : List Example}
variable {s t u : Session}

/-! ### Directories that are made -/

/-- A change of a session that makes directories at some places, and nothing else. -/
structure OnlyMakes (made : Location → Prop) (s t : Session) : Prop where
  directory_eq : t.directory = s.directory
  keeps : Tree.Keeps (fun _ => False) made s.tree t.tree

namespace OnlyMakes

theorem of_tree_eq (htree : t.tree = s.tree) (hdirectory : t.directory = s.directory) :
    OnlyMakes made s t :=
  ⟨hdirectory, htree ▸ Tree.Keeps.refl t.tree⟩

theorem trans (h : OnlyMakes made s t) (h' : OnlyMakes made t u) : OnlyMakes made s u :=
  ⟨h'.directory_eq.trans h.directory_eq, h.keeps.trans h'.keeps⟩

theorem mono (h : OnlyMakes made s t) (hmade : ∀ location, made location → made' location) :
    OnlyMakes made' s t :=
  ⟨h.directory_eq, h.keeps.mono (fun _ => id) hmade⟩

/-- The files are the same. -/
theorem lookup_file_iff (h : OnlyMakes made s t) (location : Location) (content : ByteArray) :
    t.tree.lookup location = some (.file content) ↔
      s.tree.lookup location = some (.file content) :=
  ⟨h.keeps.lookup_of_file not_false, h.keeps.lookup_some not_false⟩

end OnlyMakes

/-! ### What actions leave -/

/-- An action after another one: it is reached, or the other one has stopped. -/
theorem after_bind_cases (x : Action α) (f : α → Action β) (s : Session) :
    (∃ a, x s = .ok a (after x s) ∧ after (x >>= f) s = after (f a) (after x s)) ∨
      after (x >>= f) s = after x s := by
  unfold Session.after
  simp only [bind, EStateM.bind]
  cases x s with
  | ok a t => exact .inl ⟨a, rfl, rfl⟩
  | error stop t => exact .inr rfl

theorem OnlyMakes.after_bind (hx : OnlyMakes made s (after x s))
    (hf : ∀ a, OnlyMakes made (after x s) (after (f a) (after x s))) :
    OnlyMakes made s (after (x >>= f) s) := by
  rcases after_bind_cases x f s with ⟨a, -, h⟩ | h
  · rw [h]
    exact hx.trans (hf a)
  · rwa [h]

/-- The action leaves the files as they are, also when it stops. -/
def Quiet (x : Action α) : Prop :=
  ∀ s, (after x s).tree = s.tree ∧ (after x s).directory = s.directory

theorem Quiet.onlyMakes (hx : Quiet x) (s : Session) : OnlyMakes made s (after x s) :=
  .of_tree_eq (hx s).1 (hx s).2

theorem Quiet.bind (hx : Quiet x) (hf : ∀ a, Quiet (f a)) : Quiet (x >>= f) := by
  intro s
  rcases after_bind_cases x f s with ⟨a, -, h⟩ | h
  · rw [h]
    obtain ⟨htree, hdirectory⟩ := hf a (after x s)
    exact ⟨htree.trans (hx s).1, hdirectory.trans (hx s).2⟩
  · rw [h]
    exact hx s

theorem Quiet.of_leaves (hx : Leaves x) : Quiet x := by
  intro s
  unfold Session.after
  rcases hx s with ⟨a, h⟩ | ⟨cause, h⟩
  · rw [h]
    exact ⟨rfl, rfl⟩
  · rw [h]
    exact ⟨rfl, rfl⟩

theorem quiet_pure (a : α) : Quiet (pure a) :=
  .of_leaves (leaves_pure a)

theorem quiet_throw (stop : Stop) : Quiet (throw stop : Action α) :=
  fun _ => ⟨rfl, rfl⟩

theorem quiet_printLine (text : String) : Quiet (printLine text) :=
  fun _ => ⟨rfl, rfl⟩

theorem Quiet.after_bind (hx : Quiet x) (hf : ∀ a t, t.tree = s.tree → t.directory = s.directory →
    OnlyMakes made t (after (f a) t)) : OnlyMakes made s (after (x >>= f) s) :=
  (hx.onlyMakes s).after_bind fun a => hf a _ (hx s).1 (hx s).2

/-! ### Actions that read -/

theorem leaves_build (source : Files.Path) : Leaves (build source) :=
  (leaves_sources source).bind fun found =>
    (leaves_compile found.files found.isDirectory false).bind fun code =>
      (leaves_assemble code).bind fun _ => leaves_pure _

theorem leaves_runIn (directory : Files.Path) (schedule : Option Files.Path) (ticks : Int)
    (dump : List String) : Leaves (runIn directory schedule ticks dump .nowhere) := by
  have hwith (c : Machine.Computer) (start : Machine.State) :
      Leaves (Simulate.runWith c start .nowhere) := by
    refine (leaves_pure (c.run start)).bind fun result => ?_
    cases result with
    | ok final => exact leaves_pure final
    | fault cause final => exact leaves_fail _
  have hprogram (name : String) (schedule : Machine.Schedule) :
      Leaves (Simulate.runProgram name schedule MemoryMap.ramWords ticks .nowhere) :=
    (Simulate.leaves_readProgram name).bind fun rom =>
      (leaves_ofExcept _ _).bind fun start => hwith _ start
  have hreport (final : Machine.State) : Leaves (Simulate.reportOn final (dump.map some)) := by
    refine ((leaves_mapM (fun request => ?_) _).bind fun _ => leaves_pure _).bind fun _ =>
      leaves_ofExcept _ _
    exact (leaves_need _ request).bind fun _ => leaves_ofExcept _ _
  cases schedule with
  | none =>
    exact (leaves_pure []).bind fun schedule => (hprogram _ schedule).bind hreport
  | some path =>
    have hschedule : Leaves (Simulate.readSchedule path.text) :=
      (leaves_readBytesAs _ _).bind fun _ => leaves_ofExcept _ _
    exact hschedule.bind fun schedule => (hprogram _ schedule).bind hreport

theorem quiet_compareWith (e : Example) (directory : Files.Path) (file fresh : String) :
    Quiet (compareWith e directory file fresh) := by
  have hread (path : Files.Path) : Leaves (readRecorded path) := by
    refine (leaves_doesExist path).bind fun answer => ?_
    cases answer with
    | false => exact leaves_pure ""
    | true => exact leaves_readText path
  refine (Quiet.of_leaves (hread _)).bind fun recorded => ?_
  by_cases hsame : fresh = recorded
  · rw [if_pos hsame]
    exact quiet_pure true
  · rw [if_neg hsame]
    refine (quiet_printLine _).bind fun _ => Quiet.bind (fun s => ?_) fun _ => quiet_pure false
    obtain ⟨shown, hshown⟩ := forIn_printLine (Difference.unified ("golden/" ++ file)
      ("fresh/" ++ file) (linesOf recorded) (linesOf fresh)) s
    unfold Session.after
    rw [hshown]
    exact ⟨rfl, rfl⟩

theorem leaves_ticksFor (r : Request) (e : Example) : Leaves (r.ticksFor e) := by
  unfold Request.ticksFor
  cases r.ticks with
  | none => exact leaves_pure _
  | some limit => exact leaves_need _ limit

theorem leaves_examples (r : Request) : Leaves r.examples :=
  (leaves_mapM (fun name => leaves_need _ name) _).bind fun _ => leaves_pure _

theorem leaves_recordPath (r : Request) : Leaves (recordPath r) := by
  refine (leaves_need _ r.directory).bind fun name => ?_
  cases hnul : Tree.hasNul name with
  | true =>
    rw [if_pos rfl]
    exact (leaves_fail _).bind fun _ => leaves_directoryPath.bind fun _ => leaves_pure _
  | false =>
    rw [if_neg Bool.false_ne_true]
    exact leaves_directoryPath.bind fun _ => leaves_pure _

/-! ### The directory of the run -/

/-- A file is put into a directory, or at most the directory is made. -/
theorem writeInto_cases {name : String} (h : ∀ part ∈ place ++ [name], IsName part)
    (text : String) (s : Session) :
    (∃ t, writeInto (.absolute place) name text s = .ok () t ∧ t.directory = s.directory ∧
      Tree.Keeps (place ++ [name] <+: ·) (· <+: place) s.tree t.tree) ∨
    ∃ stop t, writeInto (.absolute place) name text s = .error stop t ∧
      OnlyMakes (· <+: place) s t := by
  cases hwrite : writeInto (.absolute place) name text s with
  | ok _ t =>
    obtain ⟨hdirectory, -, -, hkeeps⟩ := writeInto_eq_ok h hwrite
    exact .inl ⟨t, rfl, hdirectory, hkeeps⟩
  | error stop t =>
    -- the file is not there yet when it cannot be written, but its directory may be
    refine .inr ⟨stop, t, rfl, ?_⟩
    rcases makeDirectories_cases (.absolute place) s with ⟨tree, hmade, hok⟩ |
      ⟨stopped, hmade, herror⟩
    · have hrest : writeText (.absolute (place ++ [name])) text { s with tree } = .error stop t :=
        (bind_of_eq_ok hok).symm.trans hwrite
      rcases writeText_cases (.absolute (place ++ [name])) text { s with tree } with
        ⟨_, -, hok⟩ | ⟨fault, -, herror⟩
      · rw [hok] at hrest
        cases hrest
      · rw [herror] at hrest
        injection hrest with _ ht
        subst ht
        exact ⟨rfl, Tree.keeps_ensureDirectories (fun _ => id) hmade⟩
    · have hstop := (bind_of_eq_error herror).symm.trans hwrite
      injection hstop with _ ht
      subst ht
      exact ⟨rfl, Tree.keeps_stopped (fun _ => id) hmade⟩

/-- The place is erased, whether or not the action stops. -/
theorem after_withCleanUp (hx : Leaves x) (path : Files.Path) (s : Session) :
    after (withCleanUp x (erase path)) s = { s with tree := s.tree.erase path.parts } := by
  rcases hx s with ⟨a, ha⟩ | ⟨cause, hcause⟩
  · unfold Session.after
    rw [withCleanUp_of_ok ha]
  · have hstop : withCleanUp x (erase path) s =
        .error (.failure cause) { s with tree := s.tree.erase path.parts } := by
      apply bind_of_eq_error
      simp only [tryCatch, tryCatchThe, MonadExceptOf.tryCatch, EStateM.tryCatch, hcause]
      rfl
    unfold Session.after
    rw [hstop]

/-- A file is put into a directory where there was nothing, for an action that leaves the files as
they are, and the directory is removed again. -/
theorem onlyMakes_after_working {name file text : String}
    (h : ∀ part ∈ place ++ [name] ++ [file], IsName part) (hname : ¬ Tree.IsSourceName name)
    (hvacant : s.tree.IsVacant (place ++ [name])) (hx : Leaves x) (hf : ∀ a, Quiet (f a)) :
    OnlyMakes (· <+: place ++ [name]) s (after (do
      writeInto (.absolute (place ++ [name])) file text
      let a ← withCleanUp x (erase (.absolute (place ++ [name])))
      f a) s) := by
  -- the file is there in between, so the two actions in front are taken together
  rw [← bind_assoc]
  refine OnlyMakes.after_bind ?_ fun a => (hf a).onlyMakes _
  rcases writeInto_cases h text s with ⟨t, hok, hdirectory, hkeeps⟩ | ⟨stop, t, herror, hmakes⟩
  · have hclean := after_withCleanUp hx (.absolute (place ++ [name])) t
    unfold Session.after at hclean ⊢
    rw [bind_of_eq_ok hok, hclean]
    refine ⟨hdirectory, Tree.Keeps.erase_of_isVacant (hkeeps.mono (fun other hunder => ?_)
      fun _ => id) hname hvacant fun _ _ => id⟩
    exact (List.prefix_append _ _).trans hunder
  · unfold Session.after
    rw [bind_of_eq_error herror]
    exact hmakes

/-! ### Comparing -/

/-- The place of the directory that the code of an example is put into. -/
def workPlace (out : Location) (e : Example) : Location :=
  out ++ [e.name] ++ [".fresh"]

/-- What is left by the comparison of one example: directories on the way to that of its code. -/
theorem onlyMakes_verify {ticks : Int} {checkCode : Bool} (he : e ∈ examples)
    (hout : ∀ part ∈ out, IsName part) (hvacant : s.tree.IsVacant (workPlace out e)) :
    OnlyMakes (· <+: workPlace out e) s
      (after (verify e ticks checkCode (.absolute (out ++ [e.name]))) s) := by
  have hnames : ∀ part ∈ workPlace out e ++ ["program.asm"], IsName part :=
    isName_concat (isName_concat (isName_concat hout (isName_examples e he).1) (by decide))
      (by decide +kernel)
  have hname : ¬ Tree.IsSourceName ".fresh" := by
    unfold Tree.IsSourceName
    decide +kernel
  have hsource : Leaves (examplePath e.source) := leaves_directoryPath.bind fun _ => leaves_pure _
  refine (Quiet.of_leaves hsource).after_bind fun source t htree _ => ?_
  refine (Quiet.of_leaves (leaves_build source)).after_bind fun code u htree' _ => ?_
  refine (Quiet.of_leaves (leaves_doesExist _)).after_bind fun answer v htree'' _ => ?_
  have hvacant' : v.tree.IsVacant (workPlace out e) := by
    rwa [htree'', htree', htree]
  refine onlyMakes_after_working hnames hname hvacant' (leaves_runIn _ _ _ _) fun report => ?_
  refine (quiet_compareWith _ _ _ _).bind fun sameOut => ?_
  cases checkCode with
  | false => exact (quiet_pure true).bind fun _ => quiet_pure _
  | true => exact (quiet_compareWith _ _ _ _).bind fun _ => quiet_pure _

/-- The other directories are not on the way. -/
theorem workPlace_not_prefix {e' : Example} {other : Location} (hne : e.name ≠ e'.name)
    (hunder : workPlace out e' <+: other) : ¬ other <+: workPlace out e := by
  intro hway
  have hsame := (hunder.trans hway).eq_of_length (by simp [workPlace])
  obtain ⟨hsame, -⟩ := List.append_inj' hsame rfl
  obtain ⟨-, hsame⟩ := List.append_inj' hsame rfl
  injection hsame with hsame
  exact hne hsame.symm

/-- What is left by the comparison of some examples. -/
theorem onlyMakes_verifyAll (hlist : list ⊆ examples) (hnodup : (list.map Example.name).Nodup)
    (hout : ∀ part ∈ out, IsName part) (hvacant : ∀ e ∈ list, s.tree.IsVacant (workPlace out e)) :
    OnlyMakes (fun location => ∃ e ∈ list, location <+: workPlace out e) s
      (after (verifyAll r (.absolute out) list) s) := by
  induction list generalizing s with
  | nil => exact (quiet_pure true).onlyMakes s
  | cons e list ih =>
    obtain ⟨he, hsubset⟩ := List.cons_subset.1 hlist
    obtain ⟨hname, hnodup⟩ := List.nodup_cons.1 hnodup
    obtain ⟨hfirst, hvacant⟩ := List.forall_mem_cons.1 hvacant
    refine (Quiet.of_leaves (leaves_ticksFor r e)).after_bind fun ticks t htree _ => ?_
    refine (quiet_printLine _).after_bind fun _ u htree' _ => ?_
    have htree : u.tree = s.tree := htree'.trans htree
    have hverify : OnlyMakes (· <+: workPlace out e) u
        (after (verify e ticks r.checkCode (.absolute (out ++ [e.name]))) u) :=
      onlyMakes_verify he hout (htree ▸ hfirst)
    refine (hverify.mono fun _ hway => ⟨e, List.mem_cons_self, hway⟩).after_bind fun same => ?_
    generalize after (verify e ticks r.checkCode (.absolute (out ++ [e.name]))) u = v at hverify ⊢
    -- the induction goes on from there: the directories of the others are still to be made
    have hothers : ∀ e' ∈ list, v.tree.IsVacant (workPlace out e') := by
      intro e' he'
      have hne : e.name ≠ e'.name := fun heq => hname (heq ▸ List.mem_map_of_mem he')
      exact hverify.keeps.isVacant (fun _ => workPlace_not_prefix hne) (htree ▸ hvacant e' he')
    have hrest : OnlyMakes (fun location => ∃ e' ∈ e :: list, location <+: workPlace out e') v
        (after (verifyAll r (.absolute out) list) v) :=
      (ih hsubset hnodup hothers).mono
        fun _ ⟨e', he', hway⟩ => ⟨e', List.mem_cons_of_mem e he', hway⟩
    cases hstop : !same && r.failFast with
    | true => exact (quiet_throw _).onlyMakes v
    | false => exact hrest.after_bind fun _ => (quiet_pure _).onlyMakes _

/-- What is left by a comparison, whatever its outcome. -/
theorem onlyMakes_perform (hverify : r.verify = true)
    (hdirectory : ∀ part ∈ s.directory, IsName part)
    (hvacant : ∀ e ∈ r.selection, s.tree.IsVacant (workPlace (r.place s.directory) e)) :
    OnlyMakes (fun location => ∃ e ∈ r.selection, location <+: workPlace (r.place s.directory) e) s
      (after (perform r) s) := by
  unfold perform
  rw [hverify]
  -- without a place or a list of examples, nothing is compared
  rcases after_bind_cases (recordPath r) _ s with ⟨path, hpath, h⟩ | h
  · rw [h]
    obtain ⟨rfl, hafter, -⟩ := recordPath_eq_ok hpath
    rw [hafter]
    rcases after_bind_cases r.examples _ s with ⟨list, hexamples, h⟩ | h
    · rw [h]
      obtain ⟨rfl, hafter, -⟩ := examples_eq_ok hexamples
      rw [hafter]
      refine (onlyMakes_verifyAll selection_subset nodup_selection (isName_place hdirectory)
        hvacant).after_bind fun same => ?_
      cases same with
      | true => exact (quiet_printLine _).onlyMakes _
      | false => exact (quiet_throw _).onlyMakes _
    · rw [h]
      exact (Quiet.of_leaves (leaves_examples r)).onlyMakes s
  · rw [h]
    exact (Quiet.of_leaves (leaves_recordPath r)).onlyMakes s

/-- Arguments that are refused change nothing. -/
theorem quiet_command_of_refusal {arguments : List String} {refusal : Refusal}
    (h : requestOf arguments = .error refusal) : Quiet (command arguments) := by
  unfold requestOf at h
  unfold command
  cases hparse : grammar.parse arguments with
  | ok given =>
    rw [hparse] at h
    cases h
  | error refusal => cases refusal <;> exact quiet_throw _

theorem run_snd (arguments : List String) (s : Session) :
    (Command.run command arguments s).2 = after (command arguments) s := by
  unfold Command.run Session.after
  cases command arguments s with
  | ok _ t => rfl
  | error stop t => cases stop <;> rfl

/-- A comparison leaves each file as it was and no new one behind, whether the records agree or not,
and whatever failure may stop it. -/
theorem file_run_verify_iff {arguments : List String}
    (hdirectory : ∀ part ∈ s.directory, IsName part)
    (hverify : ∀ r, requestOf arguments = .ok r → r.verify = true)
    (hvacant : ∀ r, requestOf arguments = .ok r →
      ∀ e ∈ r.selection, s.tree.IsVacant (workPlace (r.place s.directory) e))
    (location : Location) (content : ByteArray) :
    (Command.run command arguments s).2.tree.lookup location = some (.file content) ↔
      s.tree.lookup location = some (.file content) := by
  rw [run_snd]
  cases hrequest : requestOf arguments with
  | ok r =>
    rw [command_eq_ok hrequest]
    exact (onlyMakes_perform (hverify r hrequest) hdirectory
      (hvacant r hrequest)).lookup_file_iff location content
  | error refusal =>
    have hmakes : OnlyMakes (fun _ => False) s (after (command arguments) s) :=
      (quiet_command_of_refusal hrequest).onlyMakes s
    exact hmakes.lookup_file_iff location content

/-- A session with a record that has a schedule with a bad line. -/
def withBadSchedule : Session :=
  withExample [(["golden"], .directory), (["golden", "statics"], .directory),
    (["golden", "statics", "schedule.txt"], .file "0 SP\n".toUTF8),
    (["golden", "statics", "out.txt"], .file "SP| 0\n".toUTF8)]

/-- The comparison is stopped when its code has been put into its directory. -/
theorem file_run_verify_iff_withBadSchedule :
    requestOf ["--only", "statics", "--verify"] =
      .ok { only := [some "statics"], verify := true } ∧
    withBadSchedule.tree.IsVacant ["golden", "statics", ".fresh"] ∧
    (Command.run command ["--only", "statics", "--verify"] withBadSchedule).1 =
      .failure (.schedule (.line "0 SP")) ∧
    ∀ location content,
      (Command.run command ["--only", "statics", "--verify"] withBadSchedule).2.tree.lookup
        location = some (.file content) ↔
          withBadSchedule.tree.lookup location = some (.file content) := by
  have hrequest : requestOf ["--only", "statics", "--verify"] =
      .ok { only := [some "statics"], verify := true } := by decide +kernel
  have hvacant : withBadSchedule.tree.IsVacant ["golden", "statics", ".fresh"] :=
    Tree.isVacant_iff.2 (by decide)
  refine ⟨hrequest, hvacant, by decide +kernel, ?_⟩
  apply file_run_verify_iff (fun _ h => absurd h List.not_mem_nil)
  · rintro r h
    rw [hrequest] at h
    injection h with h
    rw [← h]
  · rintro r h e he
    rw [hrequest] at h
    injection h with h
    subst h
    obtain rfl : e = statics := List.mem_singleton.1 he
    exact hvacant

end HackToolchain.Cli.Golden
