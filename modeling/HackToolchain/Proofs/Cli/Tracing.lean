import HackToolchain.Proofs.Cli.Artifacts
import HackToolchain.Proofs.Cli.Session
import HackToolchain.Proofs.Files.Tree
import HackToolchain.Proofs.Machine.Observation

/-!
# Programs run with a trace

A trace does not interfere with the program that it shows, wherever it goes.

* `readExact_of_writeExact`: a file that has been written is read back;
* `runProgram_eq`: running a program comes to running its words;
* `runProgram_traced`: with a trace, to the output or to a file, a program ends in the same state as
  without, up to the size of the memory, and the trace has a line for each step.
-/

namespace HackToolchain.Cli

open Files Text Session Machine

variable {s t : Session} {name text : String}

/-- A file that has been written is read back. -/
theorem Session.readExact_of_writeExact (h : writeExact name text s = .ok () t) :
    readExact name t = .ok (Utf8.encode text) t := by
  obtain ⟨tree, hwrite, rfl⟩ := writeTextAs_eq_ok_iff.1 h
  exact readBytesAs_eq_ok_iff.2 ⟨Tree.read_of_write hwrite, rfl⟩

namespace Simulate

theorem leaves_readProgram (name : String) : Leaves (readProgram name) :=
  (leaves_readBytes _).bind fun _ => (leaves_ofExcept _ _).bind fun _ => leaves_ofExcept _ _

/-- Running a program comes to running its words. -/
theorem runProgram_eq {rom : Array Int} (h : readProgram name s = .ok rom t) (schedule : Schedule)
    (ramWords limit : Int) (target : TraceTarget) :
    runProgram name schedule ramWords limit target s =
      (do
        let start ← ofExcept .capacity (State.allocate ramWords)
        runWith ⟨rom, schedule, limit⟩ start target) s := by
  have hleaves : t = s := by
    rcases leaves_readProgram name s with ⟨rom', hok⟩ | ⟨cause, herror⟩
    · rw [hok] at h
      injection h with _ hs
      exact hs.symm
    · rw [herror] at h
      cases h
  exact (bind_of_eq_ok h).trans (by rw [hleaves])

theorem eq_fresh_of_allocate {ramWords : Int} {start : State}
    (h : State.allocate ramWords = .ok start) : start = State.fresh ramWords := by
  unfold State.allocate at h
  cases hcapacity : checkCapacity .index ramWords with
  | error error =>
    rw [hcapacity] at h
    cases h
  | ok =>
    rw [hcapacity] at h
    injection h with h
    exact h.symm

theorem runWith_of_run {c : Computer} {start final : State} (h : c.run start = .ok final) :
    runWith c start .nowhere s = .ok final s := by
  rw [runWith, h]
  rfl

/-- A trace is written when the run has ended. -/
theorem runWith_of_runTraced {c : Computer} {start traced : State}
    (h : c.runTraced start = (text, .ok traced)) :
    runWith c start .output s = .ok traced { s with out := s.out ++ text } ∧
      ∀ file, runWith c start (.file file) s =
        (do writeExact file text; return traced : Action State) s := by
  constructor
  · rw [runWith, h]
    rfl
  · intro file
    rw [runWith, h]
    rfl

/-- A program that is run with a trace, to the output or to a file, ends in the same state as
without one, but that the memory has three cells at least if a step has been made.  The trace has
one line for each step, which shows the state from which the step is made. -/
theorem runProgram_traced {rom : Array Int} {schedule : Schedule}
    (hload : readProgram name s = .ok rom t) (hwords : ∀ word ∈ rom, IsWord word)
    (haddresses : ∀ event ∈ schedule, 0 ≤ event.address) (ramWords limit : Int) :
    (∀ error, State.allocate ramWords = .error error → ∀ target,
      runProgram name schedule ramWords limit target s =
        .error (.failure (.capacity error)) s) ∧
    ∀ start, State.allocate ramWords = .ok start →
      let c : Computer := ⟨rom, schedule, limit⟩
      let starts := c.tracedStarts (c.ticksLeft start) start
      ∃ final traced text, c.run start = .ok final ∧
        runProgram name schedule ramWords limit .nowhere s = .ok final s ∧
        runProgram name schedule ramWords limit .output s =
          .ok traced { s with out := s.out ++ text } ∧
        (∀ file, runProgram name schedule ramWords limit (.file file) s =
          (do writeExact file text; return traced : Action State) s) ∧
        (∀ file u, writeExact file text s = .ok () u →
          readExact file u = .ok (Utf8.encode text) u) ∧
        final.Alike traced ∧
        traced.data.ram.size =
          (if starts = [] then final.data.ram.size else max final.data.ram.size 3) ∧
        List.Forall₂ State.Alike (c.runStarts (c.ticksLeft start) start) starts ∧
        List.Forall₂ c.Shows starts (textLines text) ∧ text = endLines (textLines text) := by
  refine ⟨fun error herror target => ?_, fun start hstart => ?_⟩
  · rw [runProgram_eq hload, herror]
    rfl
  · intro c starts
    have hc : c.IsWellFormed := ⟨hwords, haddresses⟩
    have hs : start.IsSound := by
      rw [eq_fresh_of_allocate hstart]
      exact State.isSound_fresh ramWords
    have hprogram (target : TraceTarget) :
        runProgram name schedule ramWords limit target s = runWith c start target s := by
      rw [runProgram_eq hload, hstart]
      rfl
    -- the three ways differ only in what becomes of the trace
    simp only [hprogram]
    -- nothing faults, so that the run is an iterated step, with a trace and without
    have hstarts : starts = _ := Computer.tracedStarts_eq_map hc hs (c.ticksLeft start)
    have hrun : c.run start = _ := Computer.runFor_eq_iterate hc hs (c.ticksLeft start)
    obtain ⟨lines, hlines, htraced⟩ := Computer.runTracedFor_eq hc hs (c.ticksLeft start) ""
    generalize c.advance^[c.ticksLeft start] start = final at hrun htraced
    rw [String.empty_append] at htraced
    obtain ⟨houtput, hfile⟩ := runWith_of_runTraced (s := s) htraced
    have htext := Computer.textLines_of_shows hlines
    refine ⟨final, _, endLines lines, hrun, runWith_of_run hrun, houtput, hfile,
      fun file u => readExact_of_writeExact, ?_, ?_, ?_, ?_, ?_⟩
    · -- a line of the trace looks at three cells, which may add zeros to the memory
      split
      · exact .refl final
      · exact State.alike_growForTrace final
    · split
      · rfl
      · exact size_growForTrace final
    · -- and so it does before each step
      rw [hstarts, List.forall₂_map_right_iff, List.forall₂_same]
      exact fun st _ => State.alike_growForTrace st
    · rw [htext]
      exact hlines
    · rw [htext]

/-- A session with a program that sets `D`. -/
def setsD : Session where
  tree := ⟨[(["D.asm"], .file (Utf8.encode "@7\nD=A\n"))]⟩
  directory := []

/-- The program, while the first cell is written from outside. -/
def settingD : Computer where
  rom := #[7, 0xEC10]
  schedule := [⟨0, 0, -5⟩]
  tickLimit := 10

theorem runProgram_traced_setsD :
    ∃ final traced text, readProgram "D.asm" setsD = .ok settingD.rom setsD ∧
      settingD.run (State.fresh 1) = .ok final ∧
      runProgram "D.asm" settingD.schedule 1 10 .nowhere setsD = .ok final setsD ∧
      runProgram "D.asm" settingD.schedule 1 10 .output setsD =
        .ok traced { setsD with out := setsD.out ++ text } ∧
      final.Alike traced ∧ final.data.ram.size = 1 ∧ traced.data.ram.size = 3 ∧
      textLines text = ["t=0 pc=0 ir=@7 A=0 D=0 SP=0 LCL=0 ARG=0",
        "t=1 pc=1 ir=D=A A=7 D=0 SP=65531 LCL=0 ARG=0"] := by
  have hfile : setsD.tree.read [] (Files.Path.ofText "D.asm") =
      .ok (Utf8.encode "@7\nD=A\n") := by
    decide +kernel
  have hload : readProgram "D.asm" setsD = .ok settingD.rom setsD :=
    readProgram_eq hfile (by decide +kernel)
  have haddresses : ∀ event ∈ settingD.schedule, 0 ≤ event.address := by decide
  obtain ⟨final, traced, text, hrun, hnowhere, houtput, -, -, halike, hsize, -⟩ :=
    (runProgram_traced hload (by decide) haddresses 1 10).2 (State.fresh 1) rfl
  have hfinal : (settingD.run (State.fresh 1)).state.data.ram.size = 1 := by decide +kernel
  have hmade : settingD.tracedStarts 10 (State.fresh 1) ≠ [] := by decide +kernel
  have htext : textLines (after (runProgram "D.asm" settingD.schedule 1 10 .output) setsD).out =
      ["t=0 pc=0 ir=@7 A=0 D=0 SP=0 LCL=0 ARG=0",
        "t=1 pc=1 ir=D=A A=7 D=0 SP=65531 LCL=0 ARG=0"] := by
    decide +kernel
  have hout : (after (runProgram "D.asm" settingD.schedule 1 10 .output) setsD).out = text := by
    rw [Session.after, houtput]
    exact String.empty_append
  obtain rfl : (settingD.run (State.fresh 1)).state = final := congrArg Outcome.state hrun
  have hgrown := hsize.trans (if_neg hmade)
  rw [hfinal] at hgrown
  rw [hout] at htext
  exact ⟨_, traced, text, hload, hrun, hnowhere, houtput, halike, hfinal, hgrown, htext⟩

end Simulate

end HackToolchain.Cli
