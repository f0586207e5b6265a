import HackToolchain.Proofs.Machine.ScheduledWrites

/-!
# Tick limits

A run goes on until the machine halts or the tick has come to the limit.  `Computer.Loops` is this
loop without a bound on its steps, together with the number of instructions that are executed.

* `exists_loops`: the loop comes to an end, and a run ends where the loop does;
* `Loops.unique`, `Loops.trans`: the loop ends in one state only, and a loop up to one limit can be
  gone on with up to a later one;
* `Loops.tick_eq`: the tick counts the instructions and does not pass the limit;
* `calls_of_halted`: a machine that has halted does nothing any more;
* `run_continues`: so a limit only cuts a run short.
-/

namespace HackToolchain.Machine

namespace Computer

variable {c : Computer} {s t t' u : State} {k k' : Nat}

/-! ### The loop -/

/-- The number of instructions that a step executes: none if the program counter has left the
program. -/
def executions (c : Computer) (s : State) : Nat :=
  if c.isPastEnd s.pc then 0 else 1

theorem executions_le (c : Computer) (s : State) : c.executions s ≤ 1 := by
  unfold executions
  split
  · exact Nat.zero_le 1
  · exact Nat.le_refl 1

/-- From the first state, steps are made until a run has reached its end, which is in the last
state; on the way that many instructions are executed. -/
inductive Loops (c : Computer) : State → Nat → State → Prop
  /-- The end is reached. -/
  | done {s : State} (hdone : c.isDone s = true) : Loops c s 0 s
  /-- A step is made, and the loop goes on. -/
  | step {s t u : State} {k : Nat} (hdone : c.isDone s = false) (hstep : c.step s = .ok t)
    (rest : Loops c t k u) : Loops c s (c.executions s + k) u

theorem Loops.isDone (h : c.Loops s k t) : c.isDone t = true := by
  induction h with
  | done hdone => exact hdone
  | step _ _ _ ih => exact ih

/-- The loop ends in one state only. -/
theorem Loops.unique (h : c.Loops s k t) (h' : c.Loops s k' t') : k = k' ∧ t = t' := by
  induction h generalizing k' t' with
  | done hdone =>
    cases h' with
    | done => exact ⟨rfl, rfl⟩
    | step hdone' =>
      rw [hdone] at hdone'
      cases hdone'
  | step hdone hstep _ ih =>
    cases h' with
    | done hdone' =>
      rw [hdone] at hdone'
      cases hdone'
    | step _ hstep' rest' =>
      rw [hstep] at hstep'
      injection hstep' with hsame
      subst hsame
      obtain ⟨rfl, rfl⟩ := ih rest'
      exact ⟨rfl, rfl⟩

/-- A loop up to one limit can be gone on with up to a later one. -/
theorem Loops.trans {m n : Int} (hmn : m ≤ n) (h : (c.withLimit m).Loops s k t)
    (h' : (c.withLimit n).Loops t k' u) : (c.withLimit n).Loops s (k + k') u := by
  induction h with
  | done =>
    rw [Nat.zero_add]
    exact h'
  | step hdone hstep _ ih =>
    -- what is not yet the end under the first limit is not so under the second
    obtain ⟨hrun, hlt⟩ := isDone_eq_false_iff.1 hdone
    rw [Nat.add_assoc]
    exact .step (isDone_eq_false_iff.2 ⟨hrun, Int.lt_of_lt_of_le hlt hmn⟩) hstep (ih h')

/-! ### Runs end where the loop does -/

/-- A run whose fuel is enough for the ticks that are left ends where the loop does. -/
theorem exists_loops_runFor (hc : c.IsWellFormed) (hs : s.IsSound) {fuel : Nat}
    (hfuel : s.halted = true ∨ c.ticksLeft s ≤ fuel) :
    ∃ k t, c.runFor fuel s = .ok t ∧ c.Loops s k t := by
  induction fuel generalizing s with
  | zero =>
    have hdone := isDone_iff.2 (hfuel.imp_right fun (hle : (c.tickLimit - s.tick).toNat ≤ 0) =>
      show c.tickLimit ≤ s.tick by omega)
    exact ⟨0, s, rfl, .done hdone⟩
  | succ fuel ih =>
    rw [runFor]
    cases hdone : c.isDone s with
    | true => exact ⟨0, s, rfl, .done hdone⟩
    | false =>
      rw [if_neg Bool.false_ne_true, step_eq_next hc hs]
      obtain ⟨hgo, hlt⟩ := isDone_eq_false_iff.1 hdone
      -- the step halts the machine, or leaves one tick less
      have hnext : (c.next s).halted = true ∨ c.ticksLeft (c.next s) ≤ fuel := by
        cases hhalted : (c.next s).halted with
        | true => exact .inl rfl
        | false =>
          right
          have hleft := hfuel.resolve_left (by rw [hgo]; exact Bool.false_ne_true)
          rw [ticksLeft] at hleft ⊢
          rw [tick_next hgo hhalted]
          omega
      obtain ⟨k, t, hrun, hloop⟩ := ih (hs.next hc) hnext
      exact ⟨_, t, hrun, .step hdone (step_eq_next hc hs) hloop⟩

/-- A run comes to an end, where the loop does. -/
theorem exists_loops (hc : c.IsWellFormed) (hs : s.IsSound) :
    ∃ k t, c.run s = .ok t ∧ c.Loops s k t :=
  exists_loops_runFor hc hs (.inr (Nat.le_refl _))

/-- A run up to one limit and then up to a later one ends where a run up to the later one does. -/
theorem run_run (hc : c.IsWellFormed) (hs : s.IsSound) (ht : t.IsSound) {m n : Int} (hmn : m ≤ n)
    (h : (c.withLimit m).Loops s k t) :
    ∃ u, (c.withLimit n).run t = .ok u ∧ (c.withLimit n).run s = .ok u := by
  have hn : (c.withLimit n).IsWellFormed := ⟨hc.words, hc.addresses⟩
  obtain ⟨j, u, hrun, hloop⟩ := exists_loops hn ht
  obtain ⟨i, u', hrun', hloop'⟩ := exists_loops hn hs
  obtain ⟨-, rfl⟩ := (h.trans hmn hloop).unique hloop'
  exact ⟨u, hrun, hrun'⟩

/-! ### Ticks and instructions -/

/-- The tick advances by one with each instruction. -/
theorem tick_next_eq (hrun : s.halted = false) (hs : s.IsSound) :
    (c.next s).tick = s.tick + c.executions s := by
  have hpc := hs.pc
  unfold executions isPastEnd
  rcases c.next_cases s with ⟨hhalted, -⟩ | ⟨-, hfetch, hnext⟩ | ⟨-, word, hfetch, hnext⟩
  · rw [hrun] at hhalted
    cases hhalted
  · have hend := Array.getElem?_eq_none_iff.1 hfetch
    rw [hnext, if_pos (by rw [decide_eq_true_eq]; omega)]
    exact (Int.add_zero _).symm
  · obtain ⟨hlt, -⟩ := Array.getElem?_eq_some_iff.1 hfetch
    rw [hnext, if_neg (by rw [decide_eq_true_eq]; omega)]
    rfl

theorem Loops.isSound (hc : c.IsWellFormed) (hs : s.IsSound) (h : c.Loops s k t) : t.IsSound := by
  induction h with
  | done => exact hs
  | step _ hstep _ ih =>
    rw [step_eq_next hc hs] at hstep
    injection hstep with hstep
    subst hstep
    exact ih (hs.next hc)

/-- The tick counts the instructions that are executed, and does not pass the limit. -/
theorem Loops.tick_eq (hc : c.IsWellFormed) (hs : s.IsSound) (h : c.Loops s k t) :
    t.tick = s.tick + k ∧ t.tick ≤ max s.tick c.tickLimit := by
  induction h with
  | done => exact ⟨(Int.add_zero _).symm, Int.le_max_left _ _⟩
  | @step s t u k hdone hstep _ ih =>
    rw [step_eq_next hc hs] at hstep
    injection hstep with hstep
    subst hstep
    obtain ⟨hrun, hlt⟩ := isDone_eq_false_iff.1 hdone
    obtain ⟨heq, hle⟩ := ih (hs.next hc)
    have hone := c.executions_le s
    rw [tick_next_eq hrun hs] at heq hle
    push_cast
    omega

/-! ### Machines that have halted -/

theorem runFor_of_halted (h : s.halted = true) (fuel : Nat) : c.runFor fuel s = .ok s := by
  cases fuel with
  | zero => rfl
  | succ fuel => rw [runFor, if_pos (isDone_iff.2 (.inl h))]

/-- A machine that has halted does nothing any more, whatever it is called upon to do. -/
theorem calls_of_halted (h : s.halted = true) (calls : List Call) : c.calls calls s = .ok s := by
  induction calls with
  | nil => rfl
  | cons call calls ih =>
    have hcall : c.call s call = .ok s := by
      cases call with
      | step => exact if_pos h
      | run limit => exact runFor_of_halted h _
    rw [Computer.calls, hcall]
    exact ih

end Computer

open Computer

/-- From every state that a fresh machine comes to, a run under any limit comes to an end, at which
the machine has halted or the limit is reached.  Going on under a later limit leads to the state to
which a run under the later limit leads at once.  If the machine has halted, that is the state in
which it is, and which nothing that it is called upon to do changes any more.  A run of a fresh
machine ends at a tick that is the number of instructions executed and does not pass the limit. -/
theorem run_continues {c : Computer} (hc : c.IsWellFormed) (ramWords : Int) :
    (∀ calls, ∃ s, c.calls calls (State.fresh ramWords) = .ok s ∧ ∀ m n : Int, m ≤ n →
      ∃ k t u, (c.withLimit m).run s = .ok t ∧ (c.withLimit m).Loops s k t ∧
        (t.halted = true ∨ m ≤ t.tick) ∧ t.tick = s.tick + k ∧
        (c.withLimit n).run t = .ok u ∧ (c.withLimit n).run s = .ok u ∧
        (t.halted = true → u = t ∧ ∀ more, c.calls more t = .ok t)) ∧
    ∀ limit : Int, ∃ k t, (c.withLimit limit).run (State.fresh ramWords) = .ok t ∧
      (c.withLimit limit).Loops (State.fresh ramWords) k t ∧ t.tick = k ∧ t.tick ≤ max 0 limit := by
  have hfresh := State.isSound_fresh ramWords
  have hlimit (limit : Int) : (c.withLimit limit).IsWellFormed := ⟨hc.words, hc.addresses⟩
  refine ⟨fun calls => ?_, fun limit => ?_⟩
  · -- the state after the calls is sound, whatever they were
    obtain ⟨steps, hmakes⟩ := makes_calls hc hfresh calls
    have hs := hfresh.iterate_next hc steps
    refine ⟨_, hmakes.outcome_eq, fun m n hmn => ?_⟩
    obtain ⟨k, t, hrun, hloop⟩ := exists_loops (hlimit m) hs
    obtain ⟨u, hu, hu'⟩ := run_run hc hs (hloop.isSound (hlimit m) hs) hmn hloop
    refine ⟨k, t, u, hrun, hloop, isDone_iff.1 hloop.isDone,
      (hloop.tick_eq (hlimit m) hs).1, hu, hu', fun hhalted => ⟨?_, calls_of_halted hhalted⟩⟩
    -- a run from a halted state ends where it starts
    have hstays : (c.withLimit n).run t = .ok t := runFor_of_halted hhalted _
    rw [hu] at hstays
    injection hstays
  · obtain ⟨k, t, hrun, hloop⟩ := exists_loops (hlimit limit) hfresh
    obtain ⟨htick, hle⟩ := hloop.tick_eq (hlimit limit) hfresh
    exact ⟨k, t, hrun, hloop, htick.trans (Int.zero_add _), hle⟩

/-- A program that counts up to its end, where the machine halts. -/
def countToEnd : Computer where
  rom := #[0x0005, 0xEC10, 0xE7D0]
  schedule := [⟨2, 16, 7⟩]

theorem run_continues_countToEnd :
    ∃ s k t u, countToEnd.calls [.step] (State.fresh 1) = .ok s ∧
      (countToEnd.withLimit 2).run s = .ok t ∧ (countToEnd.withLimit 2).Loops s k t ∧
      t.halted = false ∧ t.tick = 2 ∧ (countToEnd.withLimit 100).run t = .ok u ∧
      (countToEnd.withLimit 100).run s = .ok u ∧ u.halted = true ∧ u.tick = 3 ∧
      u.data.d = 6 ∧ u.data.ram.get 16 = 7 := by
  obtain ⟨s, hs, hruns⟩ := (run_continues (c := countToEnd) (by decide) 1).1 [.step]
  obtain ⟨k, t, u, ht, hloop, -, -, hu, hu', -⟩ := hruns 2 100 (by decide)
  obtain rfl : (countToEnd.calls [.step] (State.fresh 1)).state = s := by rw [hs]; rfl
  have hcut : let t := ((countToEnd.withLimit 2).run
      (countToEnd.calls [.step] (State.fresh 1)).state).state
      t.halted = false ∧ t.tick = 2 := by
    decide +kernel
  have hend : let u := ((countToEnd.withLimit 100).run
      (countToEnd.calls [.step] (State.fresh 1)).state).state
      u.halted = true ∧ u.tick = 3 ∧ u.data.d = 6 ∧ u.data.ram.get 16 = 7 := by
    decide +kernel
  rw [ht] at hcut
  rw [hu'] at hend
  exact ⟨_, k, t, u, hs, ht, hloop, hcut.1, hcut.2, hu, hu', hend⟩

end HackToolchain.Machine
