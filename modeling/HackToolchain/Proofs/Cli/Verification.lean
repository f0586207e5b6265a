import HackToolchain.Proofs.Cli.Record

/-!
# Comparing with a record

A record that agrees with its example is found to agree with it, unless something is in the way: a
schedule that the example does not have, or something that keeps the code from being put into a
directory of its own (`IsClear`).  The comparison leaves nothing behind.

* `verify_of_schedule`: what is compared, under whatever schedule is in the record;
* `verify_of_recorded`: a record that agrees is found to agree;
* `IsClear.of_changes`: nothing gets in the way when records are written or compared.
-/

namespace HackToolchain.Cli.Golden

open Files Text Session

variable {out place : Location} {e : Example} {ticks : Int} {s s' : Session}
variable {code report fresh text : String} {schedule taken : Machine.Schedule}

/-! ### The parts of comparing -/

theorem doesExist_of_hasFile {location : Location} {content : ByteArray}
    (hlocation : ∀ part ∈ location, IsName part) (h : s.tree.HasFile location content) :
    doesExist (.absolute location) s = .ok true s :=
  doesExist_eq_ok_iff.2 ⟨⟨_, (Tree.node?_absolute_eq_some hlocation).2
    ⟨h.isUsable, h.admits, h.lookup_eq⟩, rfl⟩, rfl⟩

/-- A text without carriage returns that is in the record. -/
theorem readRecorded_of_hasFile {name : String} (hname : ∀ part ∈ place ++ [name], IsName part)
    (hreturn : '\r' ∉ text.toList)
    (h : s.tree.HasFile (place ++ [name]) (Utf8.encode text)) :
    readRecorded (.absolute (place ++ [name])) s = .ok text s := by
  refine bind_eq_ok_iff.2 ⟨true, s, doesExist_of_hasFile hname h, readText_eq_ok_iff.2 ⟨?_, rfl⟩⟩
  exact ⟨_, (Tree.read_absolute hname).2 h, VM.textOfFile_encode hreturn⟩

/-- Such a text does not differ from the record. -/
theorem compareWith_of_hasFile {name : String} (hname : ∀ part ∈ place ++ [name], IsName part)
    (hreturn : '\r' ∉ text.toList)
    (h : s.tree.HasFile (place ++ [name]) (Utf8.encode text)) :
    compareWith e (.absolute place) name text s = .ok true s := by
  refine bind_eq_ok_iff.2 ⟨text, s, readRecorded_of_hasFile hname hreturn h, ?_⟩
  rw [if_pos rfl]
  rfl

theorem forIn_printLine (lines : List String) (s : Session) : ∃ shown,
    (forIn lines PUnit.unit fun line _ => do
      printLine line
      pure (ForInStep.yield PUnit.unit) : Action PUnit) s =
        .ok ⟨⟩ { s with out := s.out ++ shown } := by
  induction lines generalizing s with
  | nil => exact ⟨"", by rw [String.append_empty]; rfl⟩
  | cons line lines ih =>
    obtain ⟨shown, hshown⟩ := ih { s with out := s.out ++ (line ++ "\n") }
    refine ⟨line ++ "\n" ++ shown, ?_⟩
    rw [List.forIn_cons, ← String.append_assoc]
    exact bind_eq_ok_iff.2 ⟨_, _, bind_eq_ok_iff.2 ⟨(), _, rfl, rfl⟩, hshown⟩

/-- Another text is found to differ from the record. -/
theorem compareWith_of_ne {name other : String} (hname : ∀ part ∈ place ++ [name], IsName part)
    (hreturn : '\r' ∉ text.toList)
    (h : s.tree.HasFile (place ++ [name]) (Utf8.encode text)) (hne : other ≠ text) : ∃ shown,
    compareWith e (.absolute place) name other s = .ok false { s with out := s.out ++ shown } := by
  have hread := readRecorded_of_hasFile hname hreturn h
  obtain ⟨shown, hshown⟩ := forIn_printLine
    (Difference.unified ("golden/" ++ name) ("fresh/" ++ name) (linesOf text) (linesOf other))
    { s with out := s.out ++ ("[mismatch][" ++ e.name ++ "] " ++ name ++ " differs" ++ "\n") }
  refine ⟨"[mismatch][" ++ e.name ++ "] " ++ name ++ " differs" ++ "\n" ++ shown,
    bind_eq_ok_iff.2 ⟨text, s, hread, ?_⟩⟩
  rw [if_neg hne, ← String.append_assoc]
  exact bind_eq_ok_iff.2 ⟨(), _, rfl, bind_eq_ok_iff.2 ⟨⟨⟩, _, hshown, rfl⟩⟩

theorem withCleanUp_of_ok {α : Type} {x : Action α} {a : α} {path : Files.Path}
    (h : x s = .ok a s') :
    withCleanUp x (erase path) s = .ok a { s' with tree := s'.tree.erase path.parts } := by
  have htry : tryCatch x (fun stop => do
      erase path
      throw stop) s = .ok a s' := by
    simp only [tryCatch, tryCatchThe, MonadExceptOf.tryCatch, EStateM.tryCatch, h]
  exact bind_eq_ok_iff.2 ⟨a, s', htry, rfl⟩

/-! ### What is in the way -/

/-- Nothing that has been left in the directory of a record keeps the code of a comparison out of a
directory of its own. -/
structure HasRoom (tree : Tree) (directory place : Location) : Prop where
  /-- The code has no file in place of its directory. -/
  no_file : ∀ content, tree.lookup (place ++ [".fresh"]) ≠ some (.file content)
  /-- The code has no directory in place of its file. -/
  no_directory : tree.lookup (place ++ [".fresh", "program.asm"]) ≠ some .directory
  /-- The examples are not in the directory of the code. -/
  outside : ¬ place ++ [".fresh"] <+: directory
  /-- The path of that file is not too long. -/
  usable : Tree.textFault? (.absolute (place ++ [".fresh", "program.asm"])) = none

/-- Nothing that has been left in the directory of a record is in the way of a comparison. -/
structure IsClear (tree : Tree) (directory place : Location) (e : Example) : Prop extends
    HasRoom tree directory place where
  /-- There is no schedule that the example does not have. -/
  no_schedule : e.schedule = none → tree.lookup (place ++ ["schedule.txt"]) = none

/-- Nothing gets in the way when records are written or compared. -/
theorem IsClear.of_changes {directory : Location} {list : List Example}
    {names : Example → List String} (h : IsClear s.tree directory (out ++ [e.name]) e)
    (hchanges : ChangesAll out list names s s') (hnames : ∀ e' ∈ list, e.name = e'.name →
      ".fresh" ∉ names e' ∧ (e.schedule = none → "schedule.txt" ∉ names e')) :
    IsClear s'.tree directory (out ++ [e.name]) e := by
  have hfresh := fun e' he' heq => (hnames e' he' heq).1
  refine ⟨⟨fun content => ?_, ?_, h.outside, h.usable⟩, fun hnone => ?_⟩
  · rw [hchanges.lookup_eq hfresh]
    exact h.no_file content
  · rw [hchanges.lookup_eq hfresh]
    exact h.no_directory
  · rw [hchanges.lookup_eq fun e' he' heq => (hnames e' he' heq).2 hnone]
    exact h.no_schedule hnone

/-! ### Comparing -/

/-- The directory of the code and its file have paths where the record has one. -/
theorem HasRoom.usable_fresh {tree : Tree} {directory : Location} (hne : place ≠ [])
    (h : HasRoom tree directory place) (hplace : Tree.IsUsable (.absolute place)) :
    Tree.IsUsable (.absolute (place ++ [".fresh"])) ∧
      Tree.IsUsable (.absolute (place ++ [".fresh"] ++ ["program.asm"])) := by
  have hfresh : place ++ [".fresh"] ≠ [] := List.concat_ne_nil _ _
  have hsize := (Tree.textFault?_eq_none.1 h.usable).2
  rw [List.append_cons, Files.Path.text_absolute_concat hfresh,
    Files.Path.text_absolute_concat hne] at hsize
  simp only [String.utf8ByteSize_append] at hsize
  have hsizes : ".fresh".utf8ByteSize = 6 ∧ "program.asm".utf8ByteSize = 11 ∧
      "/".utf8ByteSize = 1 := by decide
  have husable : Tree.IsUsable (.absolute (place ++ [".fresh"])) :=
    (Tree.isUsable_concat hne).2 ⟨hplace, by decide, by decide, by omega⟩
  refine ⟨husable, (Tree.isUsable_concat hfresh).2 ⟨husable, by decide, by decide, ?_⟩⟩
  rw [Files.Path.text_absolute_concat hne]
  simp only [String.utf8ByteSize_append]
  omega

/-- The path of the schedule is shorter. -/
theorem HasRoom.usable_schedule {tree : Tree} {directory : Location} (hne : place ≠ [])
    (h : HasRoom tree directory place) (hplace : Tree.IsUsable (.absolute place)) :
    Tree.IsUsable (.absolute (place ++ ["schedule.txt"])) := by
  obtain ⟨-, -, -, hsize⟩ :=
    (Tree.isUsable_concat (List.concat_ne_nil _ _)).1 (h.usable_fresh hne hplace).2
  have hsizes : "program.asm".utf8ByteSize = 11 ∧ "schedule.txt".utf8ByteSize = 12 ∧
      "/".utf8ByteSize = 1 := by decide
  rw [Files.Path.text_absolute_concat hne, String.utf8ByteSize_append,
    String.utf8ByteSize_append] at hsize
  exact (Tree.isUsable_concat hne).2 ⟨hplace, by decide, by decide, by omega⟩

theorem HasRoom.not_below_home (h : HasRoom s.tree s.directory place) :
    ¬ place ++ [".fresh"] <+: home s.directory := by
  intro hunder
  rcases List.prefix_concat_iff.1 hunder with heq | hbelow
  · obtain ⟨-, heq⟩ := List.append_inj' heq rfl
    exact absurd heq (by decide)
  · exact h.outside hbelow

/-- The code is put into a directory of its own. -/
theorem writeInto_of_hasRoom (hne : place ≠ []) (hplace : ∀ part ∈ place, IsName part)
    (husable : Tree.IsUsable (.absolute place)) (hroom : HasRoom s.tree s.directory place)
    (hadmits : s.tree.Admits (place ++ [".fresh"])) (text : String) : ∃ tree,
      writeInto (.absolute (place ++ [".fresh"])) "program.asm" text s = .ok () { s with tree } ∧
      tree.HasFile (place ++ [".fresh"] ++ ["program.asm"]) (Utf8.encode text) ∧
      Changes (home s.directory) place [".fresh"] s { s with tree } := by
  have hfile : ∀ part ∈ place ++ [".fresh"] ++ ["program.asm"], IsName part :=
    isName_concat (isName_concat hplace (by decide)) (by decide +kernel)
  have hassoc : place ++ [".fresh"] ++ ["program.asm"] = place ++ [".fresh", "program.asm"] :=
    List.append_assoc _ _ _
  have htouches (other : Location) (hunder : place ++ [".fresh"] <+: other) :
      Touches (home s.directory) place [".fresh"] other :=
    ⟨".fresh", List.mem_singleton_self _, hunder, hroom.not_below_home⟩
  obtain ⟨husable_fresh, husable_file⟩ := hroom.usable_fresh hne husable
  obtain ⟨tree, hmade, hcases⟩ :=
    Tree.ensureDirectories_concat hadmits hroom.no_file husable_fresh
  -- the directory is there, and all else is as before
  have hdirectory : tree.lookup (place ++ [".fresh"]) = some .directory := by
    rcases hcases with ⟨hnode, rfl⟩ | ⟨-, rfl⟩
    · exact hnode
    · exact Tree.lookup_set_self s.tree (List.concat_ne_nil _ _) _
  have hother (other : Location) (hne : other ≠ place ++ [".fresh"]) :
      tree.lookup other = s.tree.lookup other := by
    rcases hcases with ⟨-, rfl⟩ | ⟨-, rfl⟩
    · rfl
    · exact Tree.lookup_set_of_ne s.tree hne _
  have hkeeps : Tree.Keeps (Touches (home s.directory) place [".fresh"]) (· <+: place) s.tree
      tree := by
    rcases hcases with ⟨-, rfl⟩ | ⟨-, rfl⟩
    · exact Tree.Keeps.refl _
    · exact Tree.keeps_set (htouches _ (List.prefix_refl _)) _
  have hadmits' : tree.Admits (place ++ [".fresh"] ++ ["program.asm"]) := by
    intro front hfront hne
    have hfront := (List.prefix_concat_iff.1 hfront).resolve_left hne
    by_cases heq : front = place ++ [".fresh"]
    · rw [heq, hdirectory]
    · rw [hother front heq]
      exact hadmits front hfront heq
  have hnode : tree.lookup (place ++ [".fresh"] ++ ["program.asm"]) ≠ some .directory := by
    rw [hother _ (by simp), hassoc]
    exact hroom.no_directory
  have hwrite : tree.write s.directory (.absolute (place ++ [".fresh"] ++ ["program.asm"]))
      (Utf8.encode text) = .ok _ :=
    Tree.write_absolute hfile (Utf8.encode text) husable_file hadmits' hnode
  have hwritten : writeText (.absolute (place ++ [".fresh"] ++ ["program.asm"])) text
      { s with tree } = .ok () _ := writeTextAs_eq_ok_iff.2 ⟨_, hwrite, rfl⟩
  refine ⟨_, bind_eq_ok_iff.2 ⟨(), { s with tree }, makeDirectories_eq_ok_iff.2
    ⟨tree, hmade, rfl⟩, hwritten⟩, ?_, rfl, hkeeps.trans (Tree.keeps_set (htouches _ ?_) _)⟩
  · exact (writeTextAs_eq_ok hfile hwritten).2.2.1
  · exact List.prefix_append _ _

/-- The place of the schedule that a comparison takes: the one in the record, whether or not the
example has a schedule. -/
def takenSchedule (tree : Tree) (place : Location) : Option Location :=
  (tree.lookup (place ++ ["schedule.txt"])).map fun _ => place ++ ["schedule.txt"]

theorem doesExist_of_hasSchedule (hplace : ∀ part ∈ place ++ ["schedule.txt"], IsName part)
    (husable : Tree.IsUsable (.absolute (place ++ ["schedule.txt"])))
    (h : HasSchedule s.tree (takenSchedule s.tree place) schedule) :
    doesExist (.absolute (place ++ ["schedule.txt"])) s =
      .ok (takenSchedule s.tree place).isSome s := by
  unfold takenSchedule at h ⊢
  cases hnode : s.tree.lookup (place ++ ["schedule.txt"]) with
  | none =>
    exact doesExist_eq_ok_iff.2 ⟨⟨none, Tree.node?_absolute_eq_none hplace husable hnode, rfl⟩, rfl⟩
  | some node =>
    rw [hnode] at h
    obtain ⟨bytes, hbytes, -⟩ := h
    exact doesExist_of_hasFile hplace hbytes

theorem takenSchedule_eq_path (tree : Tree) (place : Location) :
    (if (takenSchedule tree place).isSome = true then
      some (Files.Path.absolute (place ++ ["schedule.txt"])) else none) =
        pathOf (takenSchedule tree place) := by
  unfold takenSchedule
  cases tree.lookup (place ++ ["schedule.txt"]) <;> rfl

theorem eq_of_mem_takenSchedule {tree : Tree} {taken : Location}
    (h : taken ∈ takenSchedule tree place) : taken = place ++ ["schedule.txt"] := by
  obtain ⟨node, -, rfl⟩ := Option.map_eq_some_iff.1 h
  rfl

/-- The run of a comparison, in a directory of its own that is removed again. -/
theorem run_of_hasRoom (hne : place ≠ []) (hplace : ∀ part ∈ place, IsName part)
    (husable : Tree.IsUsable (.absolute place)) (hroom : HasRoom s.tree s.directory place)
    (hadmits : s.tree.Admits (place ++ [".fresh"]))
    (hschedule : HasSchedule s.tree (takenSchedule s.tree place) schedule)
    (hreports : Reports code schedule ticks e.dump report) : ∃ t tree,
      writeInto (.absolute (place ++ [".fresh"])) "program.asm" code s = .ok () t ∧
      withCleanUp (runIn (.absolute (place ++ [".fresh"])) (pathOf (takenSchedule s.tree place))
        ticks e.dump .nowhere) (erase (.absolute (place ++ [".fresh"]))) t =
          .ok report { s with tree } ∧
      Changes (home s.directory) place [".fresh"] s { s with tree } := by
  obtain ⟨tree, hwrite, hcode, hchanges⟩ :=
    writeInto_of_hasRoom hne hplace husable hroom hadmits code
  -- the schedule stands beside the new directory, not in it
  have hfile : HasSchedule tree (takenSchedule s.tree place) schedule := by
    apply hschedule.imp
    intro taken htaken bytes hbytes
    rw [eq_of_mem_takenSchedule htaken] at hbytes ⊢
    exact hchanges.hasFile (by decide) hbytes
  have hrun : runIn (.absolute (place ++ [".fresh"])) (pathOf (takenSchedule s.tree place)) ticks
      e.dump .nowhere { s with tree } = .ok report { s with tree } := by
    refine runIn_of_reports (isName_concat hplace (by decide)) (fun taken htaken => ?_)
      hcode hfile hreports
    rw [eq_of_mem_takenSchedule htaken]
    exact ⟨List.concat_ne_nil _ _, isName_concat hplace (by decide)⟩
  have hclean : withCleanUp _ (erase (.absolute (place ++ [".fresh"]))) { s with tree } =
      .ok report { s with tree := tree.erase (place ++ [".fresh"]) } := withCleanUp_of_ok hrun
  refine ⟨_, _, hwrite, hclean, rfl,
    hchanges.keeps.trans (Tree.keeps_erase fun other hunder => ?_)⟩
  exact ⟨".fresh", List.mem_singleton_self _, hunder, hroom.not_below_home⟩

/-- A record that agrees with its example is compared with a run under the schedule that is in the
record, also if the example has none. -/
theorem verify_of_schedule (he : e ∈ examples) (hout : ∀ part ∈ out, IsName part)
    (hroom : HasRoom s.tree s.directory (out ++ [e.name]))
    (h : Recorded s (out ++ [e.name]) e ticks code report schedule)
    (htaken : HasSchedule s.tree (takenSchedule s.tree (out ++ [e.name])) taken)
    (hfresh : Reports code taken ticks e.dump fresh) (checkCode : Bool) : ∃ tree shown,
      verify e ticks checkCode (.absolute (out ++ [e.name])) s =
        .ok (fresh = report) { s with tree, out := s.out ++ shown } ∧
      Changes (home s.directory) (out ++ [e.name]) [".fresh"] s { s with tree } ∧
      (fresh = report → shown = "") := by
  have hplace := isName_concat hout (isName_examples e he).1
  have hfile {name : String} (hname : name ∈ writtenNames) :
      ∀ part ∈ (out ++ [e.name]) ++ [name], IsName part :=
    isName_concat hplace (isName_writtenNames name hname)
  have hne : out ++ [e.name] ≠ [] := List.concat_ne_nil _ _
  generalize out ++ [e.name] = place at *
  obtain ⟨listing, hbuild⟩ := h.build
  obtain ⟨husable, -⟩ := (Tree.isUsable_concat hne).1 h.code_file.isUsable
  have hexists := doesExist_of_hasSchedule (hfile (by decide))
    (hroom.usable_schedule hne husable) htaken
  obtain ⟨t, tree, hwrite, hrun, hchanges⟩ := run_of_hasRoom hne hplace husable hroom
    (isOpen_of_admits h.code_file.admits).admits htaken hfresh
  rw [← takenSchedule_eq_path] at hrun
  have hreturn := return_notMem_of_reports h.reports
  have hreport := hchanges.hasFile (by decide) h.report_file
  -- the reports are compared, and a difference is shown only if there is one
  obtain ⟨shown, hcompare, hshown⟩ : ∃ shown,
      compareWith e (.absolute place) "out.txt" fresh { s with tree } =
        .ok (fresh = report) { s with tree, out := s.out ++ shown } ∧
      (fresh = report → shown = "") := by
    by_cases hsame : fresh = report
    · refine ⟨"", ?_, fun _ => rfl⟩
      rw [hsame, decide_eq_true rfl, String.append_empty]
      exact compareWith_of_hasFile (hfile (by decide)) hreturn hreport
    · obtain ⟨shown, hcompare⟩ := compareWith_of_ne (hfile (by decide)) hreturn hreport hsame
      refine ⟨shown, ?_, fun heq => absurd heq hsame⟩
      rw [decide_eq_false hsame]
      exact hcompare
  -- the code is the same whatever the schedule
  have hcode : compareWith e (.absolute place) "program.asm" code
      { s with tree, out := s.out ++ shown } = .ok true { s with tree, out := s.out ++ shown } :=
    compareWith_of_hasFile (hfile (by decide)) h.return_notMem
      (hchanges.hasFile (by decide) h.code_file)
  -- the steps of the comparison in their order
  refine ⟨tree, shown, bind_eq_ok_iff.2 ⟨_, s, rfl, bind_eq_ok_iff.2 ⟨_, s, hbuild, ?_⟩⟩, hchanges,
    hshown⟩
  refine bind_eq_ok_iff.2 ⟨_, s, hexists, bind_eq_ok_iff.2 ⟨(), t, hwrite, ?_⟩⟩
  refine bind_eq_ok_iff.2 ⟨_, _, hrun, bind_eq_ok_iff.2 ⟨_, _, hcompare, ?_⟩⟩
  have hboth : (pure (decide (fresh = report) && true) : Action Bool)
      { s with tree, out := s.out ++ shown } =
        .ok (fresh = report) { s with tree, out := s.out ++ shown } := by
    rw [Bool.and_true]
    rfl
  cases checkCode with
  | false => exact hboth
  | true => exact bind_eq_ok_iff.2 ⟨true, _, hcode, hboth⟩

/-- A record that agrees with its example is found to agree with it, if nothing is in the way. -/
theorem verify_of_recorded (he : e ∈ examples) (hout : ∀ part ∈ out, IsName part)
    (hclear : IsClear s.tree s.directory (out ++ [e.name]) e)
    (h : Recorded s (out ++ [e.name]) e ticks code report schedule) (checkCode : Bool) :
    ∃ tree, verify e ticks checkCode (.absolute (out ++ [e.name])) s = .ok true { s with tree } ∧
      Changes (home s.directory) (out ++ [e.name]) [".fresh"] s { s with tree } := by
  -- the schedule beside the record is the recorded one, or there is none
  have htaken : takenSchedule s.tree (out ++ [e.name]) = e.recordedSchedule (out ++ [e.name]) := by
    have hrecorded := h.schedule_file
    unfold takenSchedule Example.recordedSchedule at *
    cases hschedule : e.schedule with
    | none =>
      rw [hclear.no_schedule hschedule]
      rfl
    | some name =>
      rw [hschedule] at hrecorded
      obtain ⟨bytes, hbytes, -⟩ := hrecorded
      rw [hbytes.lookup_eq]
      rfl
  obtain ⟨tree, shown, hverify, hchanges, hshown⟩ :=
    verify_of_schedule he hout hclear.toHasRoom h (htaken ▸ h.schedule_file) h.reports checkCode
  rw [hshown rfl, decide_eq_true rfl, String.append_empty] at hverify
  exact ⟨tree, hverify, hchanges⟩

end HackToolchain.Cli.Golden
