import HackToolchain.Proofs.Machine.IdleLoop

/-!
# Scheduled writes happen once

A machine goes on when it is called upon, to make a step or to run up to a tick limit.  Whatever
calls are made of a fresh machine, what it does altogether is a sequence of single effects that
follows from the schedule and the number of steps: for each tick, from zero on, the writes of that
tick in the order of the schedule, and then one instruction.

* `step_eq_replay`: a step of a machine that has not halted has the effects of its tick;
* `makes_calls`: all calls together make steps one behind the other, none of them from a state that
  has halted;
* `perm_writes`: the writes in the effects of the first ticks are those that the schedule has for
  them, no more and no less;
* `calls_perform_schedule`: so no write is lost or repeated, and a machine that halts inside its
  program has no write left to do.
-/

namespace HackToolchain.Machine

/-! ### Calls -/

/-- What a machine can be called upon to do. -/
inductive Call where
  /-- One step. -/
  | step
  /-- A run up to a tick limit. -/
  | run (limit : Int)
  deriving DecidableEq, Repr

namespace Computer

variable {c : Computer} {s : State}

/-- The machine with another tick limit. -/
def withLimit (c : Computer) (limit : Int) : Computer :=
  { c with tickLimit := limit }

/-- What a call comes to. -/
def call (c : Computer) (s : State) : Call → Outcome State
  | .step => c.step s
  | .run limit => (c.withLimit limit).run s

/-- What calls come to that are made one after the other. -/
def calls (c : Computer) : List Call → State → Outcome State
  | [], s => .ok s
  | call :: calls, s => (c.call s call).andThen (c.calls calls)

/-- The states from which at most `n` steps of a run are made. -/
def runStarts (c : Computer) : Nat → State → List State
  | 0, _ => []
  | n + 1, s => if c.isDone s then [] else s :: c.runStarts n (c.step s).state

/-- The states from which the steps of a call are made.  A machine that has halted makes none. -/
def callStarts (c : Computer) (s : State) : Call → List State
  | .step => if s.halted then [] else [s]
  | .run limit => (c.withLimit limit).runStarts ((c.withLimit limit).ticksLeft s) s

/-- The states from which the steps of some calls are made. -/
def starts (c : Computer) : List Call → State → List State
  | [], _ => []
  | call :: calls, s => c.callStarts s call ++ c.starts calls (c.call s call).state

end Computer

/-! ### Effects -/

/-- A single thing that a machine does. -/
inductive Effect where
  /-- A scheduled write. -/
  | write (event : Event)
  /-- The instruction at the program counter. -/
  | instruction
  deriving DecidableEq, Repr

/-- The event that is written. -/
def Effect.event? : Effect → Option Event
  | .write event => some event
  | .instruction => none

namespace Computer

variable {c : Computer} {s : State}

/-- Has an effect. -/
def perform (c : Computer) (s : State) : Effect → Outcome State
  | .write event => (s.data.write event.address event.value).map fun data => { s with data := data }
  | .instruction => c.instruction s

/-- Has some effects, one after the other. -/
def replay (c : Computer) : List Effect → State → Outcome State
  | [], s => .ok s
  | effect :: effects, s => (c.perform s effect).andThen (c.replay effects)

/-- The effects of a tick. -/
def tickEffects (c : Computer) (tick : Int) : List Effect :=
  (c.schedule.due tick).map .write ++ [.instruction]

/-- The effects of the first `n` ticks. -/
def effects (c : Computer) (n : Nat) : List Effect :=
  (List.range n).flatMap fun (t : Nat) => c.tickEffects t

theorem effects_succ (c : Computer) (n : Nat) :
    c.effects (n + 1) = c.effects n ++ c.tickEffects n := by
  rw [effects, List.range_succ, List.flatMap_append, List.flatMap_singleton]
  rfl

theorem replay_append (xs ys : List Effect) :
    c.replay (xs ++ ys) s = (c.replay xs s).andThen (c.replay ys) := by
  induction xs generalizing s with
  | nil => rfl
  | cons x xs ih =>
    rw [List.cons_append, replay, replay]
    cases c.perform s x with
    | ok s' => exact ih
    | fault cause s' => rfl

/-- Writes that have their effects one after the other are performed in order. -/
theorem replay_map_write (events : List Event) :
    c.replay (events.map .write) s =
      (s.data.perform events).map fun data => { s with data := data } := by
  induction events generalizing s with
  | nil => rfl
  | cons event events ih =>
    rw [List.map_cons, replay, perform, Storage.perform]
    cases s.data.write event.address event.value with
    | ok data => exact ih
    | fault cause data => rfl

/-- A step of a machine that has not halted has the effects of its tick. -/
theorem step_eq_replay (hrun : s.halted = false) :
    c.step s = c.replay (c.tickEffects s.tick) s := by
  rw [step, hrun, if_neg Bool.false_ne_true, tickEffects, replay_append, replay_map_write]
  obtain ⟨data, pc, ir, tick, halted, lastFetch⟩ := s
  rw [performDue]
  cases data.perform (c.schedule.due tick) with
  | fault cause data => rfl
  | ok data =>
    -- an instruction on its own, with nothing behind it
    show c.instruction _ = (c.instruction _).andThen (c.replay [])
    cases c.instruction _ <;> rfl

/-! ### Steps one behind the other -/

/-- A machine makes `n` steps one behind the other, the first from the state `s`, and none from a
state that has halted. -/
structure Makes (c : Computer) (s : State) (n : Nat) (outcome : Outcome State)
    (starts : List State) : Prop where
  outcome_eq : outcome = .ok (c.next^[n] s)
  starts_eq : starts = (List.range n).map fun k => c.next^[k] s
  running : ∀ k < n, (c.next^[k] s).halted = false

theorem Makes.none (c : Computer) (s : State) : c.Makes s 0 (.ok s) [] :=
  ⟨rfl, rfl, fun _ hk => absurd hk (Nat.not_lt_zero _)⟩

theorem Makes.single (hc : c.IsWellFormed) (hs : s.IsSound) (hrun : s.halted = false) :
    c.Makes s 1 (c.step s) [s] := by
  refine ⟨step_eq_next hc hs, rfl, fun k hk => ?_⟩
  obtain rfl : k = 0 := by omega
  exact hrun

theorem Makes.trans {m n : Nat} {outcome outcome' : Outcome State} {starts starts' : List State}
    (h : c.Makes s m outcome starts) (h' : c.Makes (c.next^[m] s) n outcome' starts') :
    c.Makes s (m + n) outcome' (starts ++ starts') := by
  have hiterate (k : Nat) : c.next^[m + k] s = c.next^[k] (c.next^[m] s) := by
    rw [Nat.add_comm, Function.iterate_add_apply]
  refine ⟨?_, ?_, fun k hk => ?_⟩
  · rw [h'.outcome_eq, hiterate]
  · rw [h.starts_eq, h'.starts_eq, List.range_add, List.map_append, List.map_map]
    simp only [Function.comp_def, hiterate]
  · by_cases hkm : k < m
    · exact h.running k hkm
    · obtain ⟨d, rfl⟩ := Nat.exists_eq_add_of_le (Nat.not_lt.1 hkm)
      rw [hiterate]
      exact h'.running d (by omega)

theorem makes_runFor (hc : c.IsWellFormed) (hs : s.IsSound) (fuel : Nat) :
    ∃ n, c.Makes s n (c.runFor fuel s) (c.runStarts fuel s) := by
  induction fuel generalizing s with
  | zero => exact ⟨0, .none c s⟩
  | succ fuel ih =>
    rw [runFor, runStarts]
    cases hdone : c.isDone s with
    | true => exact ⟨0, .none c s⟩
    | false =>
      obtain ⟨n, hn⟩ := ih (hs.next hc)
      rw [if_neg Bool.false_ne_true, if_neg Bool.false_ne_true, step_eq_next hc hs]
      exact ⟨1 + n, (Makes.single hc hs (isDone_eq_false_iff.1 hdone).1).trans hn⟩

theorem makes_call (hc : c.IsWellFormed) (hs : s.IsSound) (call : Call) :
    ∃ n, c.Makes s n (c.call s call) (c.callStarts s call) := by
  cases call with
  | step =>
    cases hrun : s.halted with
    | true =>
      rw [Computer.call, callStarts, step, hrun, if_pos rfl, if_pos rfl]
      exact ⟨0, .none c s⟩
    | false =>
      rw [callStarts, hrun, if_neg Bool.false_ne_true]
      exact ⟨1, .single hc hs hrun⟩
  | run limit =>
    have hlimit : (c.withLimit limit).IsWellFormed := ⟨hc.words, hc.addresses⟩
    obtain ⟨n, hn⟩ := makes_runFor hlimit hs ((c.withLimit limit).ticksLeft s)
    refine ⟨n, hn.outcome_eq, hn.starts_eq, hn.running⟩

/-- Whatever calls are made, they make steps one behind the other. -/
theorem makes_calls (hc : c.IsWellFormed) (hs : s.IsSound) (calls : List Call) :
    ∃ n, c.Makes s n (c.calls calls s) (c.starts calls s) := by
  induction calls generalizing s with
  | nil => exact ⟨0, .none c s⟩
  | cons call calls ih =>
    obtain ⟨m, hm⟩ := makes_call hc hs call
    obtain ⟨n, hn⟩ := ih (hs.iterate_next hc m)
    rw [Computer.calls, starts, hm.outcome_eq]
    exact ⟨m + n, hm.trans hn⟩

/-- A step that does not end halted has advanced the tick. -/
theorem tick_next (hrun : s.halted = false) (hnext : (c.next s).halted = false) :
    (c.next s).tick = s.tick + 1 := by
  rcases c.next_cases s with ⟨hrun', -⟩ | ⟨-, -, heq⟩ | ⟨-, word, -, heq⟩
  · rw [hrun] at hrun'
    cases hrun'
  · rw [heq] at hnext
    cases hnext
  · rw [heq]
    rfl

section Makes

variable {n : Nat} {outcome : Outcome State} {starts : List State}

theorem Makes.tick_eq (h : c.Makes s n outcome starts) {k : Nat} (hk : k < n) :
    (c.next^[k] s).tick = s.tick + k := by
  induction k with
  | zero => exact (Int.add_zero _).symm
  | succ k ih =>
    have hrun := h.running (k + 1) hk
    rw [Function.iterate_succ_apply'] at hrun ⊢
    rw [tick_next (h.running k (by omega)) hrun, ih (by omega)]
    omega

/-- Together the first steps have the effects of the first ticks. -/
theorem Makes.replay_effects (hc : c.IsWellFormed) (hs : s.IsSound) (htick : s.tick = 0)
    (h : c.Makes s n outcome starts) {k : Nat} (hk : k ≤ n) :
    c.replay (c.effects k) s = .ok (c.next^[k] s) := by
  induction k with
  | zero => rfl
  | succ k ih =>
    have htick' : (c.next^[k] s).tick = k := by
      rw [h.tick_eq hk, htick, Int.zero_add]
    rw [effects_succ, replay_append, ih (by omega), ← htick']
    show c.replay _ (c.next^[k] s) = _
    rw [← step_eq_replay (h.running k hk), step_eq_next hc (hs.iterate_next hc k),
      Function.iterate_succ_apply']

/-- No write is left to do when the machine has halted inside its program. -/
theorem Makes.tick_lt_of_halted (hc : c.IsWellFormed) (hs : s.IsSound) (htick : s.tick = 0)
    (hrun : s.halted = false) (h : c.Makes s n outcome starts)
    (hhalt : (c.next^[n] s).halted = true) (hinside : (c.next^[n] s).pc < c.rom.size) :
    ∀ event ∈ c.schedule, event.tick < n := by
  cases n with
  | zero =>
    rw [Function.iterate_zero_apply, hrun] at hhalt
    cases hhalt
  | succ k =>
    rw [Function.iterate_succ_apply'] at hhalt hinside
    obtain ⟨word, -, -, hidles⟩ := exists_idles_of_halts (hs.iterate_next hc k)
      (h.running k (Nat.lt_succ_self k)) hhalt hinside
    obtain ⟨-, -, -, hquiet⟩ := of_idles hidles
    intro event hevent
    have := hquiet event hevent
    rw [h.tick_eq (Nat.lt_succ_self k), htick] at this
    omega

end Makes

/-! ### Writes and the schedule -/

theorem filterMap_event?_tickEffects (c : Computer) (tick : Int) :
    (c.tickEffects tick).filterMap Effect.event? = c.schedule.due tick := by
  rw [tickEffects, List.filterMap_append, List.filterMap_map]
  exact (List.append_nil _).trans List.filterMap_some

/-- The writes in the effects of the first ticks are those that the schedule has for them. -/
theorem perm_writes (c : Computer) (n : Nat) :
    ((c.effects n).filterMap Effect.event?).Perm
      (c.schedule.filter fun event => 0 ≤ event.tick ∧ event.tick < (n : Int)) := by
  induction n with
  | zero =>
    have hnone :
        c.schedule.filter (fun event => 0 ≤ event.tick ∧ event.tick < ((0 : Nat) : Int)) = [] := by
      rw [List.filter_eq_nil_iff]
      intro event _
      rw [decide_eq_true_eq]
      omega
    rw [hnone]
    exact .nil
  | succ n ih =>
    rw [effects_succ, List.filterMap_append, filterMap_event?_tickEffects]
    refine (ih.append_right _).trans ?_
    -- of the events up to the last tick, those before it come first
    refine List.Perm.trans (.of_eq ?_)
      (List.filter_append_perm (fun event : Event => decide (event.tick < (n : Int))) _)
    rw [List.filter_filter, List.filter_filter, Schedule.due]
    congr 1
    · refine List.filter_congr fun event _ => ?_
      rw [← Bool.decide_and, decide_eq_decide]
      omega
    · refine List.filter_congr fun event _ => ?_
      rw [← decide_not, ← Bool.decide_and, beq_eq_decide, decide_eq_decide]
      omega

end Computer

open Computer

/-- Whatever calls are made of a fresh machine, it has the effects of the first ticks, one tick for
each step that is made from a state that has not halted.  The step of a tick has the effects of that
tick, which are the writes due then, in order, and one instruction.  When the machine has halted
inside its program, all writes of the schedule have been done, and each of them once. -/
theorem calls_perform_schedule {c : Computer} (hc : c.IsWellFormed) (ramWords : Int)
    (calls : List Call) :
    ∃ s n, c.calls calls (State.fresh ramWords) = .ok s ∧
      (c.starts calls (State.fresh ramWords)).length = n ∧
      c.replay (c.effects n) (State.fresh ramWords) = .ok s ∧
      (∀ (t : Nat) (st : State), (c.starts calls (State.fresh ramWords))[t]? = some st →
        st.halted = false ∧ st.tick = t ∧
          c.replay (c.effects t) (State.fresh ramWords) = .ok st ∧
          c.step st = c.replay (c.tickEffects t) st) ∧
      (s.halted = true → s.pc < c.rom.size →
        ((c.effects n).filterMap Effect.event?).Perm
          (c.schedule.filter fun event => 0 ≤ event.tick)) := by
  have hfresh := State.isSound_fresh ramWords
  obtain ⟨n, h⟩ := makes_calls hc hfresh calls
  refine ⟨_, n, h.outcome_eq, ?_, h.replay_effects hc hfresh rfl (Nat.le_refl n),
    fun t st hst => ?_, fun hhalt hinside => ?_⟩
  · rw [h.starts_eq, List.length_map, List.length_range]
  · -- a step starts from an iterate of the first state, whose tick is the number of steps
    rw [h.starts_eq, List.getElem?_map, Option.map_eq_some_iff] at hst
    obtain ⟨k, hk, rfl⟩ := hst
    obtain ⟨hlt, rfl⟩ := List.getElem?_eq_some_iff.1 hk
    rw [List.length_range] at hlt
    rw [List.getElem_range]
    have htick : (c.next^[t] (State.fresh ramWords)).tick = t :=
      (h.tick_eq hlt).trans (Int.zero_add _)
    have hstep := step_eq_replay (c := c) (h.running t hlt)
    rw [htick] at hstep
    exact ⟨h.running t hlt, htick, h.replay_effects hc hfresh rfl (Nat.le_of_lt hlt), hstep⟩
  · -- a machine that halts inside the program has nothing left to do in its schedule
    have hlate := h.tick_lt_of_halted hc hfresh rfl rfl hhalt hinside
    have hall : c.schedule.filter (fun event => 0 ≤ event.tick) =
        c.schedule.filter fun event => 0 ≤ event.tick ∧ event.tick < (n : Int) := by
      refine List.filter_congr fun event hevent => ?_
      have := hlate event hevent
      rw [decide_eq_decide]
      omega
    rw [hall]
    exact c.perm_writes n

/-- A program that idles from the start, while a cell is written from outside up to the tick at
which it halts. -/
def lateWrites : Computer where
  rom := #[0, 0xEA87]
  schedule := [⟨3, 20, 5⟩, ⟨1, 20, 7⟩, ⟨3, 20, 9⟩, ⟨-1, 20, 8⟩]

theorem calls_perform_schedule_lateWrites :
    ∃ s, lateWrites.calls [.step, .run 100, .step] (State.fresh 1) = .ok s ∧
      s.halted = true ∧ s.tick = 4 ∧ s.data.ram.get 20 = 9 ∧
      lateWrites.replay (lateWrites.effects 4) (State.fresh 1) = .ok s ∧
      ((lateWrites.effects 4).filterMap Effect.event?).Perm
        [⟨3, 20, 5⟩, ⟨1, 20, 7⟩, ⟨3, 20, 9⟩] := by
  have hlength : (lateWrites.starts [.step, .run 100, .step] (State.fresh 1)).length = 4 := by
    decide +kernel
  have hend : let s := (lateWrites.calls [.step, .run 100, .step] (State.fresh 1)).state
      s.halted = true ∧ s.tick = 4 ∧ s.pc = 0 ∧ s.data.ram.get 20 = 9 := by
    decide +kernel
  obtain ⟨s, n, hs, hn, hreplay, -, hall⟩ :=
    calls_perform_schedule (c := lateWrites) (by decide) 1 [.step, .run 100, .step]
  obtain rfl : 4 = n := hlength.symm.trans hn
  rw [hs] at hend
  change s.halted = true ∧ s.tick = 4 ∧ s.pc = 0 ∧ s.data.ram.get 20 = 9 at hend
  obtain ⟨hhalt, htick, hpc, hget⟩ := hend
  exact ⟨s, hs, hhalt, htick, hget, hreplay, hall hhalt (by rw [hpc]; decide)⟩

end HackToolchain.Machine
