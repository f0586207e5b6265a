import HackToolchain.Proofs.Cli.Building
import HackToolchain.Proofs.Cli.Footprint
import HackToolchain.Proofs.Cli.Running

/-!
# Recording an example

What a record of an example holds when it has been written: the code that the example is built to,
its schedule, and the report of a run.  The record agrees with the example (`Recorded`), and goes on
to do so when other examples are recorded or compared.

* `recorded_of_record`: a record that has been written agrees with its example;
* `Recorded.of_changes`: it does so whatever happens to other records.
-/

namespace HackToolchain.Cli.Golden

open Files Text Session

variable {directory out place : Location} {e e' : Example} {ticks : Int} {trace : Bool}
variable {s s' t : Session} {code listing report : String} {schedule : Machine.Schedule}

/-! ### Places -/

/-- The directory of the examples. -/
def home (directory : Location) : Location :=
  directory ++ ["examples"]

/-- The place of the schedule of an example. -/
def Example.schedulePlace (e : Example) (directory : Location) : Option Location :=
  e.schedule.map fun name => home directory ++ [name]

/-- The place of the schedule in a record. -/
def Example.recordedSchedule (e : Example) (place : Location) : Option Location :=
  e.schedule.map fun _ => place ++ ["schedule.txt"]

/-- The names in a record that are ever written. -/
def writtenNames : List String :=
  ["src", "program.vm", "schedule.txt", "program.asm", "program.hex", "trace.txt", "out.txt",
    "meta.json", ".fresh"]

/-- The names that are written when an example is recorded. -/
def Example.recordNames (e : Example) : List String :=
  writtenNames.filter fun name =>
    name ≠ ".fresh" ∧ (name = "schedule.txt" → e.schedule.isSome = true)

theorem isName_writtenNames : ∀ name ∈ writtenNames, IsName name := by
  decide

/-- The names of the examples, and those of their files, are names. -/
theorem isName_examples : ∀ e ∈ examples, IsName e.name ∧ IsName e.source ∧
    ∀ name ∈ e.schedule, IsName name := by
  decide

/-- No file of an example has the name of an example or of a file in a record. -/
theorem notMem_examples : ∀ e ∈ examples, ∀ e' ∈ examples,
    e.source ∉ e'.name :: writtenNames ∧ ∀ name ∈ e.schedule, name ∉ e'.name :: writtenNames := by
  decide

theorem isName_home (h : ∀ name ∈ directory, IsName name) : ∀ name ∈ home directory, IsName name :=
  List.forall_mem_append.2 ⟨h, by decide⟩

theorem isName_concat {name : String} (h : ∀ part ∈ place, IsName part) (hname : IsName name) :
    ∀ part ∈ place ++ [name], IsName part :=
  List.forall_mem_append.2 ⟨h, List.forall_mem_singleton.2 hname⟩

/-! ### The parts of recording -/

theorem mapM_examplePath (schedule : Option String) (s : Session) :
    schedule.mapM examplePath s =
      .ok (pathOf (schedule.map fun name => home s.directory ++ [name])) s := by
  cases schedule <;> rfl

/-- A directory that can still be copied when another one has been erased is not below that. -/
theorem not_below_of_copyError? {tree : Files.Tree} {source location : Location}
    {path : Files.Path} (hne : location ≠ [])
    (h : copyError? (tree.erase location) source path = none) : ¬ location <+: source := by
  intro hbelow
  rw [copyError?, Tree.lookup_erase_of_prefix hne hbelow] at h
  cases h

theorem copyDirectory_eq_ok {source : Location} {target : Files.Path}
    (h : copyDirectory source target s = .ok () s') :
    copyError? s.tree source target = none ∧
      s' = { s with tree := s.tree.copy source target.parts } := by
  obtain ⟨u, t, hget, hrest⟩ := bind_eq_ok_iff.1 h
  injection hget with hu ht
  subst hu ht
  cases hfault : copyError? s.tree source target with
  | some error =>
    simp only [hfault] at hrest
    cases hrest
  | none =>
    simp only [hfault] at hrest
    injection hrest with _ hs
    exact ⟨rfl, hs.symm⟩

/-- A directory that is put in place of another one was not below that. -/
theorem keepDirectory_eq_ok {source location : Location} (hne : location ≠ [])
    (h : keepDirectory source (.absolute location) s = .ok () s') : ¬ location <+: source ∧
      s' = { s with tree := (s.tree.erase location).copy source location } := by
  obtain ⟨node, t, hnode, hrest⟩ := bind_eq_ok_iff.1 h
  obtain ⟨-, rfl⟩ := node?_eq_ok_iff.1 hnode
  -- the action ends well only if no file is in place of the directory
  have hcopy : (do
      erase (.absolute location)
      copyDirectory source (.absolute location)) t = .ok () s' := by
    match node with
    | none => exact hrest
    | some .directory => exact hrest
  obtain ⟨_, u, herase, hcopied⟩ := bind_eq_ok_iff.1 hcopy
  injection herase with _ hu
  subst hu
  obtain ⟨hnone, rfl⟩ := copyDirectory_eq_ok hcopied
  exact ⟨not_below_of_copyError? hne hnone, rfl⟩

/-- A directory is put in place of what is there, and a source file is written.  In both cases the
places on the way to the source are directories. -/
theorem keepSource_eq_ok {source : Location} {copied : String}
    (hsource : ∀ part ∈ source, IsName part)
    (h : keepSource (.absolute source) (.absolute place) s = .ok copied s') :
    s.tree.Admits source ∧
      (¬ place ++ ["src"] <+: source ∧
          s' = { s with tree := (s.tree.erase (place ++ ["src"])).copy source (place ++ ["src"]) } ∨
        ∃ text, writeInto (.absolute place) "program.vm" text s = .ok () s') := by
  obtain ⟨u, t, hget, hrest⟩ := bind_eq_ok_iff.1 h
  injection hget with hu ht
  subst hu ht
  by_cases hdirectory : s.tree.isDirectory s.directory (.absolute source) = .ok true
  · -- a directory is copied as a whole, in place of an older copy
    obtain ⟨husable, hadmits, -⟩ := (Tree.isDirectory_absolute hsource).1 hdirectory
    rw [hdirectory, (Tree.locate_absolute hsource).2 ⟨rfl, husable, hadmits⟩] at hrest
    refine ⟨hadmits, .inl ?_⟩
    obtain ⟨_, t, hkeep, hpure⟩ := bind_eq_ok_iff.1 hrest
    obtain ⟨-, rfl⟩ := pure_eq_ok_iff.1 hpure
    exact keepDirectory_eq_ok (List.concat_ne_nil _ _) hkeep
  · have hcopy : (readText (.absolute source) >>= fun text => do
        writeInto (.absolute place) "program.vm" text
        return "program.vm") s = .ok copied s' := by
      -- every other answer leads to a copy of the text
      revert hrest hdirectory
      generalize s.tree.isDirectory s.directory (.absolute source) = answer
      generalize s.tree.locate s.directory (.absolute source) = found
      intro hrest hdirectory
      match answer, found with
      | .ok true, .ok _ => exact absurd rfl hdirectory
      | .ok true, .error _ => exact hrest
      | .ok false, _ => exact hrest
      | .error _, _ => exact hrest
    obtain ⟨text, t, htext, hwrite⟩ := bind_eq_ok_iff.1 hcopy
    obtain ⟨⟨bytes, hbytes, -⟩, rfl⟩ := readText_eq_ok_iff.1 htext
    refine ⟨((Tree.read_absolute hsource).1 hbytes).admits, .inr ⟨text, ?_⟩⟩
    obtain ⟨_, u, hwritten, hpure⟩ := bind_eq_ok_iff.1 hwrite
    obtain ⟨-, rfl⟩ := pure_eq_ok_iff.1 hpure
    exact hwritten

/-- What happens to the schedule when an example is recorded. -/
inductive KeepsSchedule (place : Location) : Option Location → Session → Session → Prop where
  /-- There is none. -/
  | none {s : Session} : KeepsSchedule place none s s
  /-- Its file is missing. -/
  | missing {schedule : Location} {s : Session}
      (h : s.tree.node? s.directory (.absolute schedule) = .ok Option.none) :
      KeepsSchedule place (some schedule) s s
  /-- It is copied. -/
  | copied {schedule : Location} {s s' : Session} {bytes : ByteArray} {text : String}
      (hread : s.tree.read s.directory (.absolute schedule) = .ok bytes)
      (htext : VM.textOfFile bytes = .ok text)
      (hwrite : writeInto (.absolute place) "schedule.txt" text s = .ok () s') :
      KeepsSchedule place (some schedule) s s'

/-- What is done about the schedule, before the rest of the recording. -/
theorem keepsSchedule_of_match {schedulePlace : Option Location} {rest : Unit → Action Unit}
    (h : (match pathOf schedulePlace with
      | some path => do
        if ← doesExist path then
          let written ← writeInto (.absolute place) "schedule.txt" (← readText path)
          rest written
        else rest ()
      | _ => rest ()) s = .ok () s') :
    ∃ t, KeepsSchedule place schedulePlace s t ∧ rest () t = .ok () s' := by
  cases schedulePlace with
  | none => exact ⟨s, .none, h⟩
  | some schedule =>
    obtain ⟨answer, t, hexists, hrest⟩ := bind_eq_ok_iff.1 h
    obtain ⟨⟨node, hnode, rfl⟩, rfl⟩ := doesExist_eq_ok_iff.1 hexists
    cases node with
    | none => exact ⟨_, .missing hnode, hrest⟩
    | some node =>
      obtain ⟨text, t, hcopy, hwritten⟩ := bind_eq_ok_iff.1 hrest
      obtain ⟨⟨bytes, hread, htext⟩, rfl⟩ := readText_eq_ok_iff.1 hcopy
      obtain ⟨_, t, hwrite, hend⟩ := bind_eq_ok_iff.1 hwritten
      exact ⟨t, .copied hread htext hwrite, hend⟩

/-- The steps of recording an example. -/
theorem record_eq_ok (h : record e ticks trace (.absolute place) s = .ok () s') :
    ∃ (t₁ t₂ t₃ t₄ t₅ t₆ t₇ : Session) (copied code listing report : String),
      makeDirectories (.absolute place) s = .ok () t₁ ∧
      keepSource (.absolute (home s.directory ++ [e.source])) (.absolute place) t₁ =
        .ok copied t₂ ∧
      KeepsSchedule place (e.schedulePlace s.directory) t₂ t₃ ∧
      build (.absolute (home s.directory ++ [e.source])) t₃ = .ok (code, listing) t₃ ∧
      writeInto (.absolute place) "program.asm" code t₃ = .ok () t₄ ∧
      writeInto (.absolute place) "program.hex" listing t₄ = .ok () t₅ ∧
      runIn (.absolute place) (pathOf (e.schedulePlace s.directory)) ticks e.dump
        (if trace then .file (Files.Path.absolute (place ++ ["trace.txt"])).text else .nowhere) t₅ =
          .ok report t₆ ∧
      writeInto (.absolute place) "out.txt" report t₆ = .ok () t₇ ∧
      writeInto (.absolute place) "meta.json" (description e copied ticks) t₇ = .ok () s' := by
  obtain ⟨source, u, hsource, h₁⟩ := bind_eq_ok_iff.1 h
  injection hsource with hsource hu
  subst hsource hu
  obtain ⟨schedule, u, hschedule, h₂⟩ := bind_eq_ok_iff.1 h₁
  rw [mapM_examplePath] at hschedule
  injection hschedule with hschedule hu
  subst hschedule hu
  -- from here on, each action is one of the steps
  obtain ⟨_, t₁, hmake, h₃⟩ := bind_eq_ok_iff.1 h₂
  obtain ⟨copied, t₂, hkeep, h₄⟩ := bind_eq_ok_iff.1 h₃
  obtain ⟨t₃, hkept, h₅⟩ := keepsSchedule_of_match h₄
  obtain ⟨⟨code, listing⟩, u, hbuild, h₆⟩ := bind_eq_ok_iff.1 h₅
  obtain ⟨rfl, -⟩ := build_eq_ok_iff.1 hbuild
  obtain ⟨_, t₄, hcode, h₇⟩ := bind_eq_ok_iff.1 h₆
  obtain ⟨_, t₅, hlisting, h₈⟩ := bind_eq_ok_iff.1 h₇
  obtain ⟨report, t₆, hrun, h₉⟩ := bind_eq_ok_iff.1 h₈
  obtain ⟨_, t₇, hreport, hdescription⟩ := bind_eq_ok_iff.1 h₉
  exact ⟨t₁, t₂, u, t₄, t₅, t₆, t₇, copied, code, listing, report, hmake, hkeep, hkept, hbuild,
    hcode, hlisting, hrun, hreport, hdescription⟩

/-! ### What the parts change -/

/-- Copying the source leaves the examples alone. -/
theorem changes_of_keepSource {home : Location} {source copied : String}
    (hplace : ∀ part ∈ place, IsName part) (hsource : ∀ part ∈ home ++ [source], IsName part)
    (h : keepSource (.absolute (home ++ [source])) (.absolute place) s = .ok copied s') :
    IsOpen s.tree home ∧ Changes home place ["src", "program.vm"] s s' := by
  obtain ⟨hadmits, hcases⟩ := keepSource_eq_ok hsource h
  have hopen := isOpen_of_admits hadmits
  refine ⟨hopen, ?_⟩
  rcases hcases with ⟨hbelow, rfl⟩ | ⟨text, hwrite⟩
  · have htouches (other : Location) (hunder : place ++ ["src"] <+: other) :
        Touches home place ["src", "program.vm"] other :=
      ⟨"src", List.mem_cons_self, hunder, fun h => hbelow (h.trans (List.prefix_append _ _))⟩
    exact ⟨rfl, (Tree.keeps_erase htouches).trans (Tree.keeps_copy htouches _)⟩
  · have hname : ∀ part ∈ place ++ ["program.vm"], IsName part :=
      isName_concat hplace (by decide)
    exact (changes_of_writeInto hname hopen hwrite).1.mono (by decide)

/-- The schedule is put under its name, if there is one. -/
theorem changes_of_keepsSchedule {home : Location} {schedulePlace : Option Location}
    {names : List String} (hplace : ∀ part ∈ place, IsName part) (hopen : IsOpen s.tree home)
    (hnames : schedulePlace.isSome = true → "schedule.txt" ∈ names)
    (h : KeepsSchedule place schedulePlace s s') : Changes home place names s s' := by
  cases h with
  | none => exact Changes.refl s
  | missing => exact Changes.refl s
  | copied hread htext hwrite =>
    have hname : ∀ part ∈ place ++ ["schedule.txt"], IsName part :=
      isName_concat hplace (by decide)
    exact (changes_of_writeInto hname hopen hwrite).1.mono
      (List.cons_subset.2 ⟨hnames rfl, List.nil_subset _⟩)

/-- A schedule that is still there for the run has been copied. -/
theorem hasSchedule_of_keepsSchedule {home : Location} {schedulePlace : Option Location}
    {names : List String} (hplace : ∀ part ∈ place, IsName part)
    (hschedulePlace : ∀ schedule ∈ schedulePlace, (∀ part ∈ schedule, IsName part) ∧
      s.tree.Admits schedule ∧ ∀ front, front <+: schedule → ¬ Touches home place names front)
    (hchanges : Changes home place names s t) (h : KeepsSchedule place schedulePlace s s')
    (hschedule : HasSchedule t.tree schedulePlace schedule) :
    HasSchedule s'.tree (schedulePlace.map fun _ => place ++ ["schedule.txt"]) schedule := by
  cases h with
  | none => exact hschedule
  | missing hnone =>
    -- the schedule would be missing in the later session too, but there it is read
    obtain ⟨hnames, hadmits, huntouched⟩ := hschedulePlace _ rfl
    obtain ⟨bytes, hfile, -⟩ := hschedule
    have hlookup := hchanges.keeps.lookup_of_file (huntouched _ (List.prefix_refl _))
      hfile.lookup_eq
    have hsome : s.tree.node? s.directory (.absolute _) = .ok (some _) :=
      (Tree.node?_absolute_eq_some hnames).2 ⟨hfile.isUsable, hadmits, hlookup⟩
    rw [hnone] at hsome
    cases hsome
  | copied hread htext hwrite =>
    -- the copy has the text that was there, which reads as the same schedule
    obtain ⟨hnames, -, huntouched⟩ := hschedulePlace _ rfl
    obtain ⟨bytes, hfile, hparse⟩ := hschedule
    have hbefore := hchanges.keeps.hasFile huntouched ((Tree.read_absolute hnames).1 hread)
    have hsame := hfile.lookup_eq.symm.trans hbefore.lookup_eq
    injection hsame with hsame
    injection hsame with hsame
    have hname : ∀ part ∈ place ++ ["schedule.txt"], IsName part :=
      isName_concat hplace (by decide)
    obtain ⟨-, -, hcopy, -⟩ := writeInto_eq_ok hname hwrite
    refine ⟨_, hcopy, ?_⟩
    rw [Machine.Schedule.ofBytes_encode htext, ← hsame]
    exact hparse

/-- The trace, if there is one, is put under its name. -/
theorem changes_of_trace {home : Location} (hplace : ∀ part ∈ place, IsName part)
    (hopen : IsOpen s.tree home) {target : Simulate.TraceTarget}
    (htarget : target = if trace then .file (Files.Path.absolute (place ++ ["trace.txt"])).text
      else .nowhere)
    (hnowhere : target = .nowhere → s' = s)
    (hfile : ∀ name, target = .file name → ∃ text, writeExact name text s = .ok () s') :
    Changes home place ["trace.txt"] s s' := by
  have hname : ∀ part ∈ place ++ ["trace.txt"], IsName part :=
    isName_concat hplace (by decide)
  cases trace with
  | false =>
    rw [hnowhere htarget]
    exact Changes.refl s
  | true =>
    obtain ⟨text, hwrite⟩ := hfile _ htarget
    rw [writeExact, Files.Path.exact_text_absolute hname (List.concat_ne_nil _ _)] at hwrite
    obtain ⟨hdirectory, hnode, -, hkeeps⟩ := writeTextAs_eq_ok hname hwrite
    exact changes_of_keeps hopen hnode hdirectory (hkeeps _)

/-! ### Records that agree -/

/-- The record of an example agrees with it. -/
structure Recorded (s : Session) (place : Location) (e : Example) (ticks : Int)
    (code report : String) (schedule : Machine.Schedule) : Prop where
  build : ∃ listing,
    build (.absolute (home s.directory ++ [e.source])) s = .ok (code, listing) s
  code_file : s.tree.HasFile (place ++ ["program.asm"]) (Utf8.encode code)
  report_file : s.tree.HasFile (place ++ ["out.txt"]) (Utf8.encode report)
  schedule_file : HasSchedule s.tree (e.recordedSchedule place) schedule
  return_notMem : '\r' ∉ code.toList
  reports : Reports code schedule ticks e.dump report

/-- Nothing but the files and the directory of the session counts. -/
theorem Recorded.of_tree_eq (h : Recorded s place e ticks code report schedule)
    (htree : t.tree = s.tree) (hdirectory : t.directory = s.directory) :
    Recorded t place e ticks code report schedule := by
  obtain ⟨listing, hbuild⟩ := h.build
  obtain ⟨-, found, units, lines, words, hsteps⟩ := build_eq_ok_iff.1 hbuild
  rw [← htree, ← hdirectory] at hsteps
  exact ⟨⟨listing, build_eq_ok_iff.2 ⟨rfl, found, units, lines, words, hsteps⟩⟩,
    htree ▸ h.code_file, htree ▸ h.report_file, htree ▸ h.schedule_file, h.return_notMem, h.reports⟩

theorem mem_recordNames {name : String} (hname : name ∈ writtenNames) (hfresh : name ≠ ".fresh")
    (hschedule : name = "schedule.txt" → e.schedule.isSome = true) : name ∈ e.recordNames :=
  List.mem_filter.2 ⟨hname, decide_eq_true ⟨hfresh, hschedule⟩⟩

theorem isName_schedulePlace (he : e ∈ examples) (hdirectory : ∀ part ∈ directory, IsName part) :
    ∀ place ∈ e.schedulePlace directory, place ≠ [] ∧ ∀ part ∈ place, IsName part := by
  intro place hplace
  obtain ⟨name, hname, rfl⟩ := Option.map_eq_some_iff.1 hplace
  exact ⟨List.concat_ne_nil _ _,
    isName_concat (isName_home hdirectory) ((isName_examples e he).2.2 name hname)⟩

/-- An example is not touched when a record is written or compared. -/
theorem not_touches_source (he : e ∈ examples) (he' : e' ∈ examples) {names : List String}
    {home front : Location} (hnames : names ⊆ writtenNames) (h : front <+: home ++ [e.source]) :
    ¬ Touches home (out ++ [e'.name]) names front := by
  have hname := fun hmem => (notMem_examples e he e' he').1 (List.cons_subset_cons _ hnames hmem)
  exact not_touches_of_home hname (by simp) h

/-- Nor are the source files of an example that is a directory. -/
theorem not_touches_child (he : e ∈ examples) (he' : e' ∈ examples) {names : List String}
    {home : Location} (hnames : names ⊆ writtenNames) (name : String) :
    ¬ Touches home (out ++ [e'.name]) names (home ++ [e.source] ++ [name]) := by
  have hname := fun hmem => (notMem_examples e he e' he').1 (List.cons_subset_cons _ hnames hmem)
  rw [List.append_assoc]
  exact not_touches_of_home hname (by simp) (List.prefix_refl _)

theorem recordNames_subset (e : Example) : e.recordNames ⊆ writtenNames :=
  List.filter_subset_self _

theorem subset_recordNames {names : List String} (hnames : names ⊆ writtenNames)
    (hfresh : ".fresh" ∉ names) (hschedule : "schedule.txt" ∉ names) : names ⊆ e.recordNames := by
  intro name hname
  apply mem_recordNames (hnames hname)
  · rintro rfl
    exact hfresh hname
  · rintro rfl
    exact absurd hname hschedule

/-- What an example is made of is copied first. -/
theorem changes_of_inputs {home : Location} {copied : String} {t₁ t₂ t₃ : Session}
    (hplace : ∀ part ∈ place, IsName part)
    (hsource : ∀ part ∈ home ++ [e.source], IsName part)
    (hmake : makeDirectories (.absolute place) s = .ok () t₁)
    (hkeep : keepSource (.absolute (home ++ [e.source])) (.absolute place) t₁ = .ok copied t₂)
    (hkept : KeepsSchedule place (e.schedulePlace directory) t₂ t₃) :
    IsOpen t₂.tree home ∧ Changes home place e.recordNames s t₂ ∧
      Changes home place e.recordNames t₂ t₃ := by
  obtain ⟨tree, hmade, rfl⟩ := makeDirectories_eq_ok_iff.1 hmake
  have h₁ : Changes home place e.recordNames s { s with tree } :=
    ⟨rfl, Tree.keeps_ensureDirectories (fun _ => id) hmade⟩
  obtain ⟨hopen, h₂⟩ := changes_of_keepSource hplace hsource hkeep
  refine ⟨h₂.isOpen hopen, h₁.trans (h₂.mono (subset_recordNames (by decide) (by decide)
    (by decide))), changes_of_keepsSchedule hplace (h₂.isOpen hopen) (fun hsome => ?_) hkept⟩
  exact mem_recordNames (by decide) (by decide) fun _ => by
    simpa [Example.schedulePlace] using hsome

/-- What it is compiled to, and what it does, comes after that. -/
theorem changes_of_outputs {home : Location} {schedulePlace : Option Location} {text : String}
    {t₃ t₄ t₅ t₆ t₇ : Session} (hplace : ∀ part ∈ place, IsName part)
    (hschedulePlace : ∀ schedule ∈ schedulePlace,
      schedule ≠ [] ∧ ∀ part ∈ schedule, IsName part) (hopen : IsOpen t₃.tree home)
    (hcode : writeInto (.absolute place) "program.asm" code t₃ = .ok () t₄)
    (hlisting : writeInto (.absolute place) "program.hex" listing t₄ = .ok () t₅)
    (hrun : runIn (.absolute place) (pathOf schedulePlace) ticks e.dump
      (if trace then .file (Files.Path.absolute (place ++ ["trace.txt"])).text else .nowhere) t₅ =
        .ok report t₆)
    (hreport : writeInto (.absolute place) "out.txt" report t₆ = .ok () t₇)
    (hdescription : writeInto (.absolute place) "meta.json" text t₇ = .ok () s') :
    (∃ schedule, HasSchedule t₅.tree schedulePlace schedule ∧
      Reports code schedule ticks e.dump report) ∧
    s'.tree.HasFile (place ++ ["program.asm"]) (Utf8.encode code) ∧
    s'.tree.HasFile (place ++ ["out.txt"]) (Utf8.encode report) ∧
    Changes home place ["program.asm", "program.hex"] t₃ t₅ ∧
    Changes home place
      ["program.asm", "program.hex", "trace.txt", "out.txt", "meta.json"] t₃ s' := by
  have hfile {name : String} (hname : name ∈ writtenNames) :
      ∀ part ∈ place ++ [name], IsName part :=
    isName_concat hplace (isName_writtenNames name hname)
  -- the directories stay open from step to step, and no step undoes an earlier one
  obtain ⟨h₄, hcode₄⟩ := changes_of_writeInto (hfile (by decide)) hopen hcode
  have hopen₄ := h₄.isOpen hopen
  obtain ⟨h₅, -⟩ := changes_of_writeInto (hfile (by decide)) hopen₄ hlisting
  have hopen₅ := h₅.isOpen hopen₄
  have hcode₅ := h₅.hasFile (by decide) hcode₄
  obtain ⟨hreports, hnowhere, htrace⟩ := reports_of_runIn hplace hschedulePlace hcode₅ hrun
  have h₆ := changes_of_trace hplace hopen₅ rfl hnowhere htrace
  have hopen₆ := h₆.isOpen hopen₅
  obtain ⟨h₇, hreport₇⟩ := changes_of_writeInto (hfile (by decide)) hopen₆ hreport
  obtain ⟨h₈, -⟩ := changes_of_writeInto (hfile (by decide)) (h₇.isOpen hopen₆) hdescription
  have hcode₇ := h₇.hasFile (by decide) (h₆.hasFile (by decide) hcode₅)
  refine ⟨hreports, h₈.hasFile (by decide) hcode₇, h₈.hasFile (by decide) hreport₇,
    (h₄.mono (by decide)).trans (h₅.mono (by decide)), ?_⟩
  exact ((((h₄.mono (by decide)).trans (h₅.mono (by decide))).trans (h₆.mono (by decide))).trans
    (h₇.mono (by decide))).trans (h₈.mono (by decide))

/-- The schedule of an example is not touched when its record is written. -/
theorem not_touches_schedule {tree : Tree} (he : e ∈ examples)
    (hdirectory : ∀ part ∈ directory, IsName part) (hopen : IsOpen tree (home directory)) :
    ∀ schedule ∈ e.schedulePlace directory, (∀ part ∈ schedule, IsName part) ∧
      tree.Admits schedule ∧ ∀ front, front <+: schedule →
        ¬ Touches (home directory) (out ++ [e.name]) e.recordNames front := by
  intro schedule hschedule
  refine ⟨(isName_schedulePlace he hdirectory schedule hschedule).2, ?_⟩
  obtain ⟨name, hname, rfl⟩ := Option.map_eq_some_iff.1 hschedule
  have hname := fun hmem => (notMem_examples e he e he).2 name hname
    (List.cons_subset_cons _ (recordNames_subset e) hmem)
  exact ⟨hopen.admits, fun front hfront => not_touches_of_home hname (by simp) hfront⟩

/-- A record that has been written agrees with its example. -/
theorem recorded_of_record (he : e ∈ examples) (hdirectory : ∀ part ∈ s.directory, IsName part)
    (hout : ∀ part ∈ out, IsName part)
    (hnames : NamesAreProper s.tree (home s.directory ++ [e.source]))
    (h : record e ticks trace (.absolute (out ++ [e.name])) s = .ok () s') :
    Changes (home s.directory) (out ++ [e.name]) e.recordNames s s' ∧
      ∃ code report schedule, Recorded s' (out ++ [e.name]) e ticks code report schedule := by
  obtain ⟨t₁, t₂, t₃, t₄, t₅, t₆, t₇, copied, code, listing, report, hmake, hkeep, hkept, hbuild,
    hcode, hlisting, hrun, hreport, hdescription⟩ := record_eq_ok h
  obtain ⟨hname, hsource, -⟩ := isName_examples e he
  have hS := isName_concat (isName_home hdirectory) hsource
  have hR := isName_concat hout hname
  obtain ⟨hopen, h₂, h₃⟩ := changes_of_inputs hR hS hmake hkeep hkept
  obtain ⟨⟨schedule, hschedule, hreports⟩, hcode_file, hreport_file, h₅, hlater⟩ :=
    changes_of_outputs hR (isName_schedulePlace he hdirectory) (h₃.isOpen hopen) hcode hlisting
      hrun hreport hdescription
  -- the names written after the inputs are names of the record
  have hwritten {names : List String} {t t' : Session} (hnames : names ⊆ writtenNames)
      (hfresh : ".fresh" ∉ names) (hschedule : "schedule.txt" ∉ names)
      (h : Changes (home s.directory) (out ++ [e.name]) names t t') :
      Changes (home s.directory) (out ++ [e.name]) e.recordNames t t' :=
    h.mono (subset_recordNames hnames hfresh hschedule)
  have hall := (h₂.trans h₃).trans (hwritten (by decide) (by decide) (by decide) hlater)
  have hnames₃ : NamesAreProper t₃.tree (home s.directory ++ [e.source]) := by
    intro name hmem
    rw [(h₂.trans h₃).keeps.sourceNames_eq _ fun name _ =>
      not_touches_child he he (recordNames_subset e) name] at hmem
    exact hnames name hmem
  refine ⟨hall, code, report, schedule, ?_, hcode_file, hreport_file, ?_, ?_, hreports⟩
  · -- a second build reads the same sources
    rw [hall.directory_eq]
    exact ⟨listing, build_of_keeps hlater.keeps hS hnames₃
      (fun front hfront => not_touches_source he he (by decide) hfront)
      (fun name => not_touches_child he he (by decide) name) hbuild⟩
  · -- the schedule of the run is the one kept in the record
    have hcopied := hasSchedule_of_keepsSchedule hR (not_touches_schedule he hdirectory hopen)
      (h₃.trans (hwritten (by decide) (by decide) (by decide) h₅)) hkept hschedule
    rw [Example.schedulePlace, Option.map_map] at hcopied
    apply hcopied.imp
    intro place hplace bytes hbytes
    obtain ⟨name, -, rfl⟩ := Option.map_eq_some_iff.1 hplace
    exact hlater.hasFile (by decide) hbytes
  · exact return_notMem_code hS hnames₃ hbuild

/-! ### Several records -/

/-- A change of a session that touches some names in the records of some examples. -/
structure ChangesAll (out : Location) (list : List Example) (names : Example → List String)
    (s s' : Session) : Prop where
  directory_eq : s'.directory = s.directory
  keeps : Tree.Keeps
    (fun location => ∃ e ∈ list, Touches (home s.directory) (out ++ [e.name]) (names e) location)
    (fun location => ∃ e ∈ list, location <+: out ++ [e.name]) s.tree s'.tree

variable {list : List Example} {names : Example → List String}

theorem ChangesAll.refl (s : Session) : ChangesAll out list names s s :=
  ⟨rfl, Tree.Keeps.refl s.tree⟩

theorem ChangesAll.trans (h : ChangesAll out list names s t) (h' : ChangesAll out list names t s') :
    ChangesAll out list names s s' :=
  ⟨h'.directory_eq.trans h.directory_eq, h.keeps.trans (h.directory_eq ▸ h'.keeps)⟩

theorem ChangesAll.mono {list' : List Example} (h : ChangesAll out list names s s')
    (hsubset : list ⊆ list') : ChangesAll out list' names s s' :=
  ⟨h.directory_eq, h.keeps.mono (fun _ ⟨e, he, htouches⟩ => ⟨e, hsubset he, htouches⟩)
    fun _ ⟨e, he, hunder⟩ => ⟨e, hsubset he, hunder⟩⟩

theorem Changes.all (h : Changes (home s.directory) (out ++ [e.name]) (names e) s s')
    (he : e ∈ list) : ChangesAll out list names s s' :=
  ⟨h.directory_eq, h.keeps.mono (fun _ htouches => ⟨e, he, htouches⟩)
    fun _ hunder => ⟨e, he, hunder⟩⟩

/-- The source files of an example keep their names. -/
theorem ChangesAll.namesAreProper (h : ChangesAll out list names s s') (he : e ∈ examples)
    (hlist : list ⊆ examples) (hwritten : ∀ e ∈ list, names e ⊆ writtenNames)
    (hnames : NamesAreProper s.tree (home s.directory ++ [e.source])) :
    NamesAreProper s'.tree (home s'.directory ++ [e.source]) := by
  intro name hname
  rw [h.directory_eq, h.keeps.sourceNames_eq _ fun name _ ⟨e', he', htouches⟩ =>
    not_touches_child he (hlist he') (hwritten e' he') name htouches] at hname
  exact hnames name hname

/-- Something in a record that is not touched stays as it is. -/
theorem ChangesAll.lookup_eq (h : ChangesAll out list names s s') {name : String}
    {tail : List String} (hname : ∀ e' ∈ list, e.name = e'.name → name ∉ names e') :
    s'.tree.lookup (out ++ [e.name] ++ name :: tail) =
      s.tree.lookup (out ++ [e.name] ++ name :: tail) := by
  apply h.keeps.lookup_of_not_made
  · rintro ⟨e', he', htouches⟩
    by_cases hne : e.name = e'.name
    · rw [← hne] at htouches
      exact not_touches_of_name (hname e' he' hne) (List.prefix_refl _) htouches
    · rw [List.append_assoc] at htouches
      exact not_touches_of_other hne (List.prefix_refl _) htouches
  · rintro ⟨e', -, hunder⟩
    have hlength := hunder.length_le
    simp only [List.length_append, List.length_cons, List.length_nil] at hlength
    omega

/-- A record goes on to agree with its example, whatever happens to other records. -/
theorem Recorded.of_changes (h : Recorded s (out ++ [e.name]) e ticks code report schedule)
    (he : e ∈ examples) (hdirectory : ∀ part ∈ s.directory, IsName part)
    (hnames : NamesAreProper s.tree (home s.directory ++ [e.source]))
    (hchanges : ChangesAll out list names s s') (hlist : list ⊆ examples)
    (hwritten : ∀ e ∈ list, names e ⊆ writtenNames) (hother : ∀ e' ∈ list, e.name ≠ e'.name) :
    Recorded s' (out ++ [e.name]) e ticks code report schedule := by
  -- the other records stand at other places
  have hkept {name : String} {content : ByteArray}
      (hfile : s.tree.HasFile (out ++ [e.name] ++ [name]) content) :
      s'.tree.HasFile (out ++ [e.name] ++ [name]) content := by
    apply hchanges.keeps.hasFile _ hfile
    rintro front hfront ⟨e', he', htouches⟩
    rw [List.append_assoc] at hfront
    exact not_touches_of_other (hother e' he') hfront htouches
  obtain ⟨listing, hbuild⟩ := h.build
  refine ⟨⟨listing, ?_⟩, hkept h.code_file, hkept h.report_file, ?_, h.return_notMem, h.reports⟩
  · rw [hchanges.directory_eq]
    refine build_of_keeps hchanges.keeps
      (isName_concat (isName_home hdirectory) (isName_examples e he).2.1) hnames ?_ ?_ hbuild
    · rintro front hfront ⟨e', he', htouches⟩
      exact not_touches_source he (hlist he') (hwritten e' he') hfront htouches
    · rintro name ⟨e', he', htouches⟩
      exact not_touches_child he (hlist he') (hwritten e' he') name htouches
  · apply h.schedule_file.imp
    intro place hplace bytes hbytes
    obtain ⟨name, -, rfl⟩ := Option.map_eq_some_iff.1 hplace
    exact hkept hbytes

end HackToolchain.Cli.Golden
