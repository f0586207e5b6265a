import HackToolchain.Cli.Golden
import HackToolchain.Proofs.Cli.Session
import HackToolchain.Proofs.Cli.TextFiles
import HackToolchain.Proofs.Asm.Image
import HackToolchain.Proofs.Files.Tree
import HackToolchain.Proofs.Machine.MemorySize
import HackToolchain.Proofs.Machine.Tracing

/-!
# Running an example

What a run of an example reports depends on its code and on its schedule, and on nothing else: not
on the directory that it is run in, and not on a trace (`Reports`).

* `reports_of_runIn`, `runIn_of_reports`: a run ends well with a report just if the code in its
  directory and its schedule give the report;
* `return_notMem_of_reports`: a report has no carriage returns.
-/

namespace HackToolchain.Cli

open Files Text Session

variable {s s' : Session} {directory place : Location} {schedule : Machine.Schedule}

/-! ### Schedules and programs -/

/-- The schedule in a file, or the empty one if there is to be no file. -/
def HasSchedule (tree : Tree) : Option Location → Machine.Schedule → Prop
  | none, schedule => schedule = []
  | some place, schedule => ∃ bytes, tree.HasFile place bytes ∧
      Machine.Schedule.ofBytes bytes = .ok schedule

theorem HasSchedule.imp {tree tree' : Tree} {schedulePlace : Option Location}
    (h : HasSchedule tree schedulePlace schedule) (himp : ∀ place ∈ schedulePlace, ∀ bytes,
      tree.HasFile place bytes → tree'.HasFile place bytes) :
    HasSchedule tree' schedulePlace schedule := by
  cases schedulePlace with
  | none => exact h
  | some place =>
    obtain ⟨bytes, hfile, hparse⟩ := h
    exact ⟨bytes, himp place rfl bytes hfile, hparse⟩

theorem Simulate.readSchedule_eq_ok_iff (hplace : ∀ name ∈ place, IsName name) (hne : place ≠ []) :
    Simulate.readSchedule (Files.Path.absolute place).text s = .ok schedule s' ↔
      HasSchedule s.tree (some place) schedule ∧ s' = s := by
  have hexact : readExact (Files.Path.absolute place).text =
      readBytesAs (Files.Path.absolute place).text (.absolute place) := by
    rw [readExact, Files.Path.exact_text_absolute hplace hne]
  rw [Simulate.readSchedule, hexact, bind_eq_ok_iff]
  constructor
  · rintro ⟨bytes, t, hread, hparse⟩
    obtain ⟨hbytes, rfl⟩ := readBytesAs_eq_ok_iff.1 hread
    obtain ⟨hschedule, rfl⟩ := ofExcept_eq_ok_iff.1 hparse
    exact ⟨⟨bytes, (Tree.read_absolute hplace).1 hbytes, hschedule⟩, rfl⟩
  · rintro ⟨⟨bytes, hfile, hschedule⟩, rfl⟩
    exact ⟨bytes, s', readBytesAs_eq_ok_iff.2 ⟨(Tree.read_absolute hplace).2 hfile, rfl⟩,
      ofExcept_eq_ok_iff.2 ⟨hschedule, rfl⟩⟩

/-- The words of a program do not depend on the directory that its file is in. -/
theorem readProgram_text_absolute (directory : Location) (code : String) :
    Asm.readProgram (Files.Path.absolute (directory ++ ["program.asm"])).text code =
      Asm.readProgram "program.asm" code := by
  have hname (name : String) (h : ".asm".toList <:+ name.toList) : name.endsWith ".asm" = true := by
    rw [← String.endsWith_toSlice, String.Slice.endsWith_string_iff, String.copy_toSlice]
    exact h
  have htext : "program.asm".toList <:+
      (Files.Path.absolute (directory ++ ["program.asm"])).text.toList := by
    rw [Files.Path.toList_text_absolute, List.map_append]
    exact (Files.Path.isSuffix_intercalate _ _).trans (List.suffix_cons _ _)
  have hsuffix : ".asm".toList <:+ "program.asm".toList := by decide
  unfold Asm.readProgram
  rw [hname _ (hsuffix.trans htext), hname _ hsuffix]

theorem Simulate.readProgram_eq_ok_iff (hdirectory : ∀ name ∈ directory, IsName name)
    {code : String} (hcode : s.tree.HasFile (directory ++ ["program.asm"]) (Utf8.encode code))
    {rom : Array Int} :
    Simulate.readProgram (Files.Path.absolute (directory ++ ["program.asm"])).text s = .ok rom s' ↔
      Asm.readProgram "program.asm" code = .ok rom ∧ s' = s := by
  have hplace : ∀ name ∈ directory ++ ["program.asm"], IsName name := by
    exact List.forall_mem_append.2 ⟨hdirectory, by decide⟩
  have hread : s.tree.read s.directory (.absolute (directory ++ ["program.asm"])) =
      .ok (Utf8.encode code) := (Tree.read_absolute hplace).2 hcode
  rw [Simulate.readProgram, Files.Path.ofText_text_absolute hplace]
  simp only [readProgram_text_absolute]
  rw [bind_eq_ok_iff]
  constructor
  · rintro ⟨bytes, t, hbytes, hrest⟩
    obtain ⟨hbytes', rfl⟩ := readBytesAs_eq_ok_iff.1 hbytes
    obtain ⟨text, u, hdecode, hparse⟩ := bind_eq_ok_iff.1 hrest
    obtain ⟨htext, rfl⟩ := ofExcept_eq_ok_iff.1 hdecode
    rw [hread] at hbytes'
    injection hbytes' with hbytes'
    rw [← hbytes', Utf8.decode_encode] at htext
    injection htext with htext
    rw [htext]
    exact ofExcept_eq_ok_iff.1 hparse
  · rintro ⟨hrom, rfl⟩
    exact ⟨_, _, readBytesAs_eq_ok_iff.2 ⟨hread, rfl⟩, bind_eq_ok_iff.2 ⟨code, s',
      ofExcept_eq_ok_iff.2 ⟨Utf8.decode_encode code, rfl⟩, ofExcept_eq_ok_iff.2 ⟨hrom, rfl⟩⟩⟩

/-! ### Runs -/

/-- A run with a trace has the same end as one without. -/
theorem Simulate.runWith_eq_ok {c : Machine.Computer} {start final : Machine.State}
    {target : Simulate.TraceTarget} (hsize : 3 ≤ start.data.ram.size)
    (h : Simulate.runWith c start target s = .ok final s') :
    c.run start = .ok final ∧ (target = .nowhere → s' = s) ∧
      ∀ name, target = .file name → ∃ text, writeExact name text s = .ok () s' := by
  cases target with
  | nowhere =>
    obtain ⟨state | ⟨cause, state⟩, t, hpure, hresult⟩ := bind_eq_ok_iff.1 h
    · obtain ⟨hrun, rfl⟩ := pure_eq_ok_iff.1 hpure
      obtain ⟨rfl, rfl⟩ := pure_eq_ok_iff.1 hresult
      refine ⟨hrun.symm, fun _ => rfl, fun name hname => ?_⟩
      cases hname
    · cases hresult
  | output =>
    obtain ⟨_, u, -, hrest⟩ := bind_eq_ok_iff.1 h
    obtain ⟨state | ⟨cause, state⟩, t, hpure, hresult⟩ := bind_eq_ok_iff.1 hrest
    · obtain ⟨hrun, rfl⟩ := pure_eq_ok_iff.1 hpure
      obtain ⟨rfl, rfl⟩ := pure_eq_ok_iff.1 hresult
      -- the memory is large enough for what the trace looks at, so the run is the same without it
      refine ⟨Machine.Computer.run_of_runTraced hsize (Prod.ext rfl hrun.symm), fun hnowhere => ?_,
        fun name hname => ?_⟩
      · cases hnowhere
      · cases hname
    · cases hresult
  | file name =>
    obtain ⟨_, u, hwrite, hrest⟩ := bind_eq_ok_iff.1 h
    obtain ⟨state | ⟨cause, state⟩, t, hpure, hresult⟩ := bind_eq_ok_iff.1 hrest
    · obtain ⟨hrun, rfl⟩ := pure_eq_ok_iff.1 hpure
      obtain ⟨rfl, rfl⟩ := pure_eq_ok_iff.1 hresult
      refine ⟨Machine.Computer.run_of_runTraced hsize (Prod.ext rfl hrun.symm), fun hnowhere => ?_,
        fun name' hname => ?_⟩
      · cases hnowhere
      · injection hname with hname
        exact ⟨_, hname ▸ hwrite⟩
    · cases hresult

namespace Golden

/-- What a run of some code reports under a schedule. -/
def Reports (code : String) (schedule : Machine.Schedule) (ticks : Int) (dump : List String)
    (out : String) : Prop :=
  ∃ rom final, Asm.readProgram "program.asm" code = .ok rom ∧
    Machine.Computer.run ⟨rom, schedule, ticks⟩ (.fresh MemoryMap.ramWords) = .ok final ∧
    ∀ s, Simulate.reportOn final (dump.map some) s = .ok out s

variable {code out : String} {ticks : Int} {dump : List String}

theorem allocate_ramWords :
    Machine.State.allocate MemoryMap.ramWords = .ok (.fresh MemoryMap.ramWords) :=
  rfl

/-- There is only one report. -/
theorem Reports.unique {out' : String} (h : Reports code schedule ticks dump out)
    (h' : Reports code schedule ticks dump out') : out = out' := by
  obtain ⟨rom, final, hrom, hrun, hreport⟩ := h
  obtain ⟨rom', final', hrom', hrun', hreport'⟩ := h'
  rw [hrom] at hrom'
  injection hrom' with hrom'
  rw [← hrom', hrun] at hrun'
  injection hrun' with hrun'
  have hsame := hreport ⟨⟨[]⟩, [], "", ""⟩
  rw [hrun', hreport'] at hsame
  injection hsame with hsame
  exact hsame.symm

/-- A report has no carriage returns. -/
theorem return_notMem_of_reports (h : Reports code schedule ticks dump out) :
    '\r' ∉ out.toList := by
  obtain ⟨-, final, -, -, hreport⟩ := h
  obtain ⟨addresses, t, -, htext⟩ := bind_eq_ok_iff.1 (hreport ⟨⟨[]⟩, [], "", ""⟩)
  exact Machine.return_notMem_report (ofExcept_eq_ok_iff.1 htext).1

/-- The report of a run can be computed with a memory that has no cells but those that it needs. -/
theorem reports_of_assemble {lines : List String} {words : Array Int} {addresses : List Int}
    (hlines : ∀ line ∈ lines, IsUnbroken line.toList) (hassemble : Asm.assemble lines = .ok words)
    (hschedule : ∀ event ∈ schedule, 0 ≤ event.address)
    (hrequests : ∀ s, Simulate.addressesOf (dump.map some) s = .ok addresses s)
    (haddresses : ∀ address ∈ addresses, 0 ≤ address)
    (hreport : Machine.report (Machine.Computer.run ⟨words, schedule, ticks⟩
      (.fresh 0)).state.data.ram.values addresses = .ok out) :
    Reports (unlines lines) schedule ticks dump out := by
  have hc : Machine.Computer.IsWellFormed ⟨words, schedule, ticks⟩ :=
    ⟨Asm.assemble_bounds hassemble, hschedule⟩
  generalize hcomputer : (⟨words, schedule, ticks⟩ : Machine.Computer) = c at *
  -- a run from an empty memory ends in the same contents, up to zeros at the end
  have hsmall : c.run (.fresh 0) = .ok (c.advance^[c.ticksLeft (.fresh 0)] (.fresh 0)) :=
    Machine.Computer.runFor_eq_iterate hc (Machine.State.isSound_fresh 0) _
  have hlarge : c.run (.fresh MemoryMap.ramWords) =
      .ok (c.advance^[c.ticksLeft (.fresh 0)] (.fresh MemoryMap.ramWords)) :=
    Machine.Computer.runFor_eq_iterate hc (Machine.State.isSound_fresh _) _
  have halike := (Machine.State.alike_fresh 0 MemoryMap.ramWords).iterate
    (Machine.State.Alike.advance (c := c)) (c.ticksLeft (.fresh 0))
  have hname : "program.asm".endsWith ".asm" = true := by decide +kernel
  refine ⟨words, _, (Asm.readProgram_unlines hname hlines).trans hassemble, hcomputer ▸ hlarge,
    fun s => bind_eq_ok_iff.2 ⟨addresses, s, hrequests s, ofExcept_eq_ok_iff.2 ⟨?_, rfl⟩⟩⟩
  rw [hsmall, Machine.Outcome.state, Machine.report_congr halike.data.ram haddresses] at hreport
  rw [hcomputer]
  exact hreport

/-- A report on a state is the same in all sessions. -/
theorem carries_reportOn {t : Session} (final : Machine.State) (requests : List (Option String)) :
    Carries s t (Simulate.reportOn final requests) := by
  refine Carries.bind (Carries.bind (carries_mapM fun request _ => ?_) fun _ _ => carries_pure _)
    fun _ _ => carries_ofExcept _ _
  refine Carries.bind ?_ fun _ _ => carries_ofExcept _ _
  cases request with
  | none => exact fun _ _ h => nomatch h
  | some request => exact carries_pure request

/-- The path of a place, if there is one. -/
def pathOf (place : Option Location) : Option Files.Path :=
  place.map Files.Path.absolute

variable {schedulePlace : Option Location}

/-- The steps of a run. -/
theorem runIn_eq_ok_iff {target : Simulate.TraceTarget}
    (hplace : ∀ place ∈ schedulePlace, place ≠ [] ∧ ∀ name ∈ place, IsName name) :
    runIn (.absolute directory) (pathOf schedulePlace) ticks dump target s = .ok out s' ↔
      ∃ schedule, HasSchedule s.tree schedulePlace schedule ∧ ∃ final t,
        Simulate.runProgram (Files.Path.absolute (directory ++ ["program.asm"])).text schedule
            MemoryMap.ramWords ticks target s = .ok final t ∧
          Simulate.reportOn final (dump.map some) t = .ok out s' := by
  cases schedulePlace with
  | none =>
    constructor
    · intro h
      obtain ⟨schedule, u, hpure, hrest⟩ := bind_eq_ok_iff.1 h
      obtain ⟨rfl, rfl⟩ := pure_eq_ok_iff.1 hpure
      exact ⟨[], rfl, bind_eq_ok_iff.1 hrest⟩
    · rintro ⟨schedule, rfl, hrest⟩
      exact bind_eq_ok_iff.2 ⟨[], s, rfl, bind_eq_ok_iff.2 hrest⟩
  | some place =>
    obtain ⟨hne, hnames⟩ := hplace place rfl
    constructor
    · intro h
      obtain ⟨schedule, u, hread, hrest⟩ := bind_eq_ok_iff.1 h
      obtain ⟨hschedule, rfl⟩ := (Simulate.readSchedule_eq_ok_iff hnames hne).1 hread
      exact ⟨schedule, hschedule, bind_eq_ok_iff.1 hrest⟩
    · rintro ⟨schedule, hschedule, hrest⟩
      exact bind_eq_ok_iff.2 ⟨schedule, s,
        (Simulate.readSchedule_eq_ok_iff hnames hne).2 ⟨hschedule, rfl⟩, bind_eq_ok_iff.2 hrest⟩

/-- What is behind a run that ends well: a report on the code under the schedule, and the file of
the trace. -/
theorem reports_of_runIn (hdirectory : ∀ name ∈ directory, IsName name)
    (hplace : ∀ place ∈ schedulePlace, place ≠ [] ∧ ∀ name ∈ place, IsName name)
    (hcode : s.tree.HasFile (directory ++ ["program.asm"]) (Utf8.encode code))
    {target : Simulate.TraceTarget}
    (h : runIn (.absolute directory) (pathOf schedulePlace) ticks dump target s = .ok out s') :
    (∃ schedule, HasSchedule s.tree schedulePlace schedule ∧
      Reports code schedule ticks dump out) ∧ (target = .nowhere → s' = s) ∧
        ∀ name, target = .file name → ∃ text, writeExact name text s = .ok () s' := by
  obtain ⟨schedule, hschedule, final, t, hprogram, hreport⟩ := (runIn_eq_ok_iff hplace).1 h
  obtain ⟨rom, u, hread, hrest⟩ := bind_eq_ok_iff.1 hprogram
  obtain ⟨hrom, rfl⟩ := (Simulate.readProgram_eq_ok_iff hdirectory hcode).1 hread
  obtain ⟨start, v, hallocate, hwith⟩ := bind_eq_ok_iff.1 hrest
  obtain ⟨hstart, rfl⟩ := ofExcept_eq_ok_iff.1 hallocate
  rw [allocate_ramWords] at hstart
  injection hstart with hstart
  subst hstart
  have hsize : (Machine.State.fresh MemoryMap.ramWords).data.ram.size = 32768 :=
    Array.size_replicate
  obtain ⟨hrun, htrace⟩ := Simulate.runWith_eq_ok (by omega) hwith
  obtain ⟨rfl, -⟩ := carries_reportOn (t := v) final _ _ _ hreport
  exact ⟨⟨schedule, hschedule, rom, final, hrom, hrun,
    fun t => (carries_reportOn final _ _ _ hreport).2⟩, htrace⟩

/-- A run without a trace ends well if there is something to report. -/
theorem runIn_of_reports (hdirectory : ∀ name ∈ directory, IsName name)
    (hplace : ∀ place ∈ schedulePlace, place ≠ [] ∧ ∀ name ∈ place, IsName name)
    (hcode : s.tree.HasFile (directory ++ ["program.asm"]) (Utf8.encode code))
    (hschedule : HasSchedule s.tree schedulePlace schedule)
    (hreports : Reports code schedule ticks dump out) :
    runIn (.absolute directory) (pathOf schedulePlace) ticks dump .nowhere s = .ok out s := by
  obtain ⟨rom, final, hrom, hrun, hreport⟩ := hreports
  refine (runIn_eq_ok_iff hplace).2 ⟨schedule, hschedule, final, s, ?_, hreport s⟩
  refine bind_eq_ok_iff.2 ⟨rom, s, ?_, bind_eq_ok_iff.2
    ⟨.fresh MemoryMap.ramWords, s, ?_, ?_⟩⟩
  · exact (Simulate.readProgram_eq_ok_iff hdirectory hcode).2 ⟨hrom, rfl⟩
  · exact ofExcept_eq_ok_iff.2 ⟨allocate_ramWords, rfl⟩
  · refine bind_eq_ok_iff.2 ⟨_, s, rfl, ?_⟩
    rw [hrun]
    rfl

end Golden

end HackToolchain.Cli
