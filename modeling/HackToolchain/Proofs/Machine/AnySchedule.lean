import HackToolchain.Proofs.Machine.Transition

/-!
# Runs under any schedule

Any integers may stand in a schedule for a tick and for an address.  A run has no negative ticks, so
that a write at one is never performed; and a negative address counts from the end of the memory as
it is then, or is refused, which stops the run.

* `step_eq_follow`, `step_eq_fault`: what a step does from a sound state, whether the writes due can
  be performed or not;
* `exists_reaches_of_lt_tick`: a run has been through every tick before the one that it ends at, and
  has performed the writes of that tick;
* `fault_of_runFor`: only a write at a negative address can stop it;
* `not_writes_of_tick_lt`, `writes_of_lt_tick`: the cell that an event is written into, if any;
* `heeds`: what a run makes of any schedule;
* `takesEffect_iff`: so every run of every program performs the writes of a schedule at the
  addresses that they show if and only if no tick and no address is negative.
-/

namespace HackToolchain.Machine

/-! ### Places in memory -/

theorem Ram.locate_of_neg (ram : Ram) {address : Int} (h : address < 0) :
    ram.locate address =
      if 0 ≤ address + ram.size then some (address + ram.size).toNat else none := by
  have hsize : address + ram.size < ram.size := by omega
  rw [locate, if_pos h, place?, if_pos h]
  simp only [hsize, and_true]

namespace Storage

variable {data data' : Storage}

theorem perform_append (xs ys : List Event) :
    data.perform (xs ++ ys) = (data.perform xs).andThen (perform ys) := by
  induction xs generalizing data with
  | nil => rfl
  | cons x xs ih =>
    rw [List.cons_append, perform, perform]
    cases data.write x.address x.value with
    | ok data' => exact ih
    | fault cause data' => rfl

/-- Writes can only fail at a negative address. -/
theorem perform_eq_fault {events : List Event} {cause : Fault}
    (h : data.perform events = .fault cause data') :
    ∃ event ∈ events, cause = .ramWrite event.address ∧ event.address < 0 := by
  induction events generalizing data with
  | nil => cases h
  | cons event events ih =>
    rw [perform, write] at h
    cases hplace : data.ram.locate event.address with
    | none =>
      rw [hplace] at h
      injection h with hcause
      refine ⟨event, List.mem_cons_self, hcause.symm, Int.not_le.1 fun hle => ?_⟩
      rw [data.ram.locate_of_nonneg hle] at hplace
      cases hplace
    | some i =>
      rw [hplace] at h
      obtain ⟨other, hmem, hother⟩ := ih h
      exact ⟨other, List.mem_cons_of_mem _ hmem, hother⟩

theorem IsSound.perform {events : List Event} (h : data.IsSound)
    (hperform : data.perform events = .ok data') : data'.IsSound := by
  rw [perform_eq_ok hperform]
  exact h.withRam _

/-- An event is written into a cell, and nothing else is. -/
structure WritesAt (data : Storage) (event : Event) (i : Nat) (data' : Storage) : Prop where
  locate : data.ram.locate event.address = some i
  write : data.write event.address event.value = .ok data'
  cell : data'.ram.get i = Asm.Word.toNat event.value
  others : ∀ j, j ≠ i → data'.ram.get j = data.ram.get j

theorem writesAt_of_locate {event : Event} {i : Nat}
    (h : data.ram.locate event.address = some i) :
    data.WritesAt event i { data with ram := data.ram.put i event.value } where
  locate := h
  write := by rw [Storage.write, h]
  cell := by
    show (data.ram.put i event.value).get i = _
    rw [Ram.get_put, if_pos rfl]
  others j hj := by
    show (data.ram.put i event.value).get j = _
    rw [Ram.get_put, if_neg (Ne.symm hj)]

/-- Each of some writes that are all performed finds its cell. -/
theorem exists_writesAt_of_perform {xs ys : List Event} {event : Event}
    (h : data.perform (xs ++ event :: ys) = .ok data') :
    ∃ before i after, data.perform xs = .ok before ∧ before.WritesAt event i after := by
  rw [perform_append] at h
  cases hxs : data.perform xs with
  | fault cause before =>
    rw [hxs] at h
    cases h
  | ok before =>
    rw [hxs] at h
    change before.perform (event :: ys) = .ok data' at h
    rw [perform, write] at h
    cases hplace : before.ram.locate event.address with
    | none =>
      rw [hplace] at h
      cases h
    | some i => exact ⟨before, i, _, rfl, writesAt_of_locate hplace⟩

end Storage

namespace Computer

variable {c : Computer} {s t : State} {data : Storage}

/-! ### Steps -/

/-- The program consists of words. -/
def HasWords (c : Computer) : Prop :=
  ∀ word ∈ c.rom, IsWord word

/-- The state that follows one in which the writes due have left the storage `data`. -/
def follow (c : Computer) (data : Storage) (s : State) : State :=
  match c.rom[s.pc.toNat]? with
  | none => { s with data := data, halted := true }
  | some word =>
    let pc := successor word s.pc data (data.executed word)
    { data := data.executed word
      pc := pc
      ir := some word
      tick := s.tick + 1
      halted := c.idles word s.pc.toNat data.a.toNat s.tick || c.isPastEnd pc
      lastFetch := s.pc }

/-- The tick advances, unless the program has been left. -/
theorem tick_follow (c : Computer) (data : Storage) (s : State) :
    (c.follow data s).tick = s.tick + 1 ∨
      (c.follow data s).tick = s.tick ∧ (c.follow data s).halted = true := by
  unfold follow
  split
  · exact .inr ⟨rfl, rfl⟩
  · exact .inl rfl

theorem isSound_follow (hwords : c.HasWords) (hdata : data.IsSound) (hs : s.IsSound) :
    (c.follow data s).IsSound := by
  unfold follow
  split
  · exact ⟨hdata, hs.pc⟩
  · rename_i word hfetch
    refine ⟨hdata.executed (hwords word (Array.mem_of_getElem? hfetch)), ?_⟩
    show 0 ≤ successor word s.pc data _
    unfold successor
    split
    · exact hdata.a.1
    · have := hs.pc
      omega

theorem performDue_of_perform (hperform : s.data.perform (c.schedule.due s.tick) = .ok data) :
    c.performDue s = .ok { s with data := data } := by
  cases s
  rw [performDue, hperform]
  rfl

/-- A step is made when the writes due can be performed. -/
theorem step_eq_follow (hs : s.IsSound) (hrun : s.halted = false)
    (hperform : s.data.perform (c.schedule.due s.tick) = .ok data) :
    c.step s = .ok (c.follow data s) := by
  have hpc : s.pc = s.pc.toNat := (Int.toNat_of_nonneg hs.pc).symm
  have hdue := performDue_of_perform hperform
  unfold follow
  cases hfetch : c.rom[s.pc.toNat]? with
  | none =>
    have hend : c.isPastEnd s.pc = true := by
      have := Array.getElem?_eq_none_iff.1 hfetch
      rw [isPastEnd, decide_eq_true_eq]
      omega
    rw [step, hrun, if_neg Bool.false_ne_true, hdue]
    show c.instruction _ = _
    rw [instruction, hend, if_pos rfl]
  | some word =>
    obtain ⟨hlt, -⟩ := Array.getElem?_eq_some_iff.1 hfetch
    rw [step_eq_execute hfetch hdue hpc hrun]
    refine (execute_of_isSound (s := { s with
      data := data, lastFetch := s.pc.toNat, ir := some word })
      (hs.data.perform hperform) hrun word rfl hlt).trans ?_
    rw [← hpc]
    rfl

/-- A step stops where a write due does. -/
theorem step_eq_fault {cause : Fault} (hrun : s.halted = false)
    (hperform : s.data.perform (c.schedule.due s.tick) = .fault cause data) :
    c.step s = .fault cause { s with data := data } := by
  have hdue : c.performDue s = .fault cause { s with data := data } := by
    cases s
    rw [performDue, hperform]
    rfl
  rw [step, if_neg (by rw [hrun]; exact Bool.false_ne_true), hdue]
  rfl

/-! ### Runs -/

/-- The first of some steps that are made leaves a machine that has halted as it is, or makes the
writes due. -/
theorem ticks_succ_eq_ok {n : Nat} (hs : s.IsSound) (h : c.ticks (n + 1) s = .ok t) :
    s.halted = true ∧ c.ticks n s = .ok t ∨
      s.halted = false ∧ ∃ data, s.data.perform (c.schedule.due s.tick) = .ok data ∧
        c.ticks n (c.follow data s) = .ok t := by
  rw [ticks] at h
  cases hrun : s.halted with
  | true =>
    rw [step, hrun, if_pos rfl] at h
    exact .inl ⟨rfl, h⟩
  | false =>
    right
    cases hperform : s.data.perform (c.schedule.due s.tick) with
    | ok data =>
      rw [step_eq_follow hs hrun hperform] at h
      exact ⟨rfl, data, rfl, h⟩
    | fault cause data =>
      rw [step_eq_fault hrun hperform] at h
      cases h

/-- A run has ended, or is stopped by a write due, or goes on from the state that follows. -/
theorem runFor_succ_cases (hs : s.IsSound) (fuel : Nat) :
    c.isDone s = true ∧ c.runFor (fuel + 1) s = .ok s ∨
      c.isDone s = false ∧
        ((∃ cause data, s.data.perform (c.schedule.due s.tick) = .fault cause data ∧
            c.runFor (fuel + 1) s = .fault cause { s with data := data }) ∨
          ∃ data, s.data.perform (c.schedule.due s.tick) = .ok data ∧
            c.step s = .ok (c.follow data s) ∧
            c.runFor (fuel + 1) s = c.runFor fuel (c.follow data s)) := by
  rw [runFor]
  cases hdone : c.isDone s with
  | true => exact .inl ⟨rfl, if_pos rfl⟩
  | false =>
    right
    have hrun := (isDone_eq_false_iff.1 hdone).1
    rw [if_neg Bool.false_ne_true]
    cases hperform : s.data.perform (c.schedule.due s.tick) with
    | fault cause data =>
      rw [step_eq_fault hrun hperform]
      exact ⟨rfl, .inl ⟨cause, data, rfl, rfl⟩⟩
    | ok data =>
      rw [step_eq_follow hs hrun hperform]
      exact ⟨rfl, .inr ⟨data, rfl, rfl, rfl⟩⟩

/-- What a state becomes is sound and no earlier, and a machine that has halted stays as it is. -/
theorem Reaches.spec (hwords : c.HasWords) (hs : s.IsSound) (h : c.Reaches s t) :
    t.IsSound ∧ s.tick ≤ t.tick ∧ (s.halted = true → t = s) := by
  obtain ⟨n, hn⟩ := h
  induction n generalizing s with
  | zero =>
    injection hn with hn
    rw [← hn]
    exact ⟨hs, Int.le_refl _, fun _ => rfl⟩
  | succ n ih =>
    rcases ticks_succ_eq_ok hs hn with ⟨-, hrest⟩ | ⟨hrun, data, hperform, hrest⟩
    · exact ih hs hrest
    · obtain ⟨hsound, hle, -⟩ := ih (isSound_follow hwords (hs.data.perform hperform) hs) hrest
      refine ⟨hsound, ?_, fun hhalt => ?_⟩
      · rcases c.tick_follow data s with htick | ⟨htick, -⟩ <;> omega
      · rw [hrun] at hhalt
        cases hhalt

/-- A state that another one becomes at the same tick, without having halted, is that one. -/
theorem Reaches.eq_of_tick_eq (hwords : c.HasWords) (hs : s.IsSound) (h : c.Reaches s t)
    (hrun : t.halted = false) (htick : t.tick = s.tick) : t = s := by
  obtain ⟨n, hn⟩ := h
  cases n with
  | zero =>
    injection hn with hn
    exact hn.symm
  | succ n =>
    rcases ticks_succ_eq_ok hs hn with ⟨hhalt, hrest⟩ | ⟨-, data, hperform, hrest⟩
    · exact (Reaches.spec hwords hs ⟨n, hrest⟩).2.2 hhalt
    · obtain ⟨-, hle, hstays⟩ :=
        Reaches.spec hwords (isSound_follow hwords (hs.data.perform hperform) hs) ⟨n, hrest⟩
      rcases c.tick_follow data s with hnext | ⟨-, hhalt⟩
      · omega
      · rw [hstays hhalt, hhalt] at hrun
        cases hrun

/-- A run comes to one state at a tick that has not halted. -/
theorem Reaches.unique {t' : State} (hwords : c.HasWords) (hs : s.IsSound) (h : c.Reaches s t)
    (h' : c.Reaches s t') (hrun : t.halted = false) (hrun' : t'.halted = false)
    (htick : t.tick = t'.tick) : t = t' := by
  rcases h.total h' with hle | hle
  · exact (hle.eq_of_tick_eq hwords (h.spec hwords hs).1 hrun' htick.symm).symm
  · exact hle.eq_of_tick_eq hwords (h'.spec hwords hs).1 hrun htick

/-- A run has been through every tick before the one that it ends at, and has performed the writes
of that tick. -/
theorem exists_reaches_of_lt_tick (hwords : c.HasWords) (hs : s.IsSound) {tick : Int}
    (hle : s.tick ≤ tick) {fuel : Nat} (hlt : tick < (c.runFor fuel s).state.tick) :
    ∃ t data, c.Reaches s t ∧ c.isDone t = false ∧ t.tick = tick ∧
      t.data.perform (c.schedule.due tick) = .ok data := by
  induction fuel generalizing s with
  | zero => exact absurd hlt (Int.not_lt.2 hle)
  | succ fuel ih =>
    rcases runFor_succ_cases hs fuel with ⟨-, hrest⟩ | ⟨hdone, ⟨cause, data, -, hrest⟩ |
      ⟨data, hperform, hstep, hrest⟩⟩
    · rw [hrest] at hlt
      exact absurd hlt (Int.not_lt.2 hle)
    · rw [hrest] at hlt
      exact absurd hlt (Int.not_lt.2 hle)
    · rw [hrest] at hlt
      -- the tick has come, or it comes in the rest of the run
      by_cases htick : s.tick = tick
      · rw [htick] at hperform
        exact ⟨s, data, .refl s, hdone, htick, hperform⟩
      · have hle' : (c.follow data s).tick ≤ tick := by
          rcases c.tick_follow data s with hnext | ⟨hnext, -⟩ <;> omega
        obtain ⟨t, data', hreach, ht⟩ :=
          ih (isSound_follow hwords (hs.data.perform hperform) hs) hle' hlt
        exact ⟨t, data', .head hstep hreach, ht⟩

/-- Only a write at a negative address can stop a run, at the tick of that write. -/
theorem fault_of_runFor (hwords : c.HasWords) (hs : s.IsSound) {fuel : Nat} {cause : Fault}
    (h : c.runFor fuel s = .fault cause t) :
    ∃ event ∈ c.schedule, cause = .ramWrite event.address ∧ event.address < 0 ∧
      event.tick = t.tick ∧ s.tick ≤ t.tick := by
  induction fuel generalizing s with
  | zero => cases h
  | succ fuel ih =>
    rcases runFor_succ_cases hs fuel with ⟨-, hrest⟩ | ⟨-, ⟨cause', data, hperform, hrest⟩ |
      ⟨data, hperform, -, hrest⟩⟩
    · rw [hrest] at h
      cases h
    · -- the event at fault is one of those due
      rw [hrest] at h
      injection h with hcause hstate
      obtain ⟨event, hdue, hfault, hneg⟩ := Storage.perform_eq_fault hperform
      obtain ⟨hmem, htick⟩ := List.mem_filter.1 hdue
      rw [← hstate, ← hcause]
      exact ⟨event, hmem, hfault, hneg, beq_iff_eq.1 htick, Int.le_refl _⟩
    · rw [hrest] at h
      obtain ⟨event, hmem, hfault, hneg, htick, hle⟩ :=
        ih (isSound_follow hwords (hs.data.perform hperform) hs) h
      refine ⟨event, hmem, hfault, hneg, htick, ?_⟩
      rcases c.tick_follow data s with hnext | ⟨hnext, -⟩ <;> omega

/-! ### The cell of an event -/

/-- A run from the state `s` comes to the event, which stands behind those of `front` in the
schedule: the machine comes to its tick and makes the writes of that tick that are listed before it,
which leave the storage `data`. -/
def Meets (c : Computer) (s : State) (front : Schedule) (event : Event) (data : Storage) : Prop :=
  ∃ t, c.Reaches s t ∧ c.isDone t = false ∧ t.tick = event.tick ∧
    t.data.perform (front.due event.tick) = .ok data

/-- A run from the state `s` comes to the event, and writes it into the cell `i`. -/
def Writes (c : Computer) (s : State) (front : Schedule) (event : Event) (i : Nat) : Prop :=
  ∃ before after, c.Meets s front event before ∧ before.WritesAt event i after

section Events

variable {front back : Schedule} {event : Event}

/-- An event is not written into two cells. -/
theorem Writes.unique (hwords : c.HasWords) (hs : s.IsSound) {i j : Nat}
    (hi : c.Writes s front event i) (hj : c.Writes s front event j) : i = j := by
  obtain ⟨before, after, ⟨t, hreach, hdone, htick, hperform⟩, hwrite⟩ := hi
  obtain ⟨before', after', ⟨t', hreach', hdone', htick', hperform'⟩, hwrite'⟩ := hj
  obtain rfl := hreach.unique hwords hs hreach' (isDone_eq_false_iff.1 hdone).1
    (isDone_eq_false_iff.1 hdone').1 (htick.trans htick'.symm)
  rw [hperform] at hperform'
  injection hperform' with hbefore
  subst hbefore
  have hlocate := hwrite.locate.symm.trans hwrite'.locate
  injection hlocate

/-- An event at a tick before the start is never performed. -/
theorem not_writes_of_tick_lt (hwords : c.HasWords) (hs : s.IsSound) (hlt : event.tick < s.tick)
    (i : Nat) : ¬ c.Writes s front event i := by
  rintro ⟨-, -, ⟨t, hreach, -, htick, -⟩, -⟩
  have := (hreach.spec hwords hs).2.1
  omega

/-- A run that lasts beyond the tick of an event has written it into one cell: the one at its
address, if that is not negative, and otherwise the one that far from the end of the memory. -/
theorem writes_of_lt_tick (hwords : c.HasWords) (hs : s.IsSound)
    (hschedule : c.schedule = front ++ event :: back) (hle : s.tick ≤ event.tick)
    (hlt : event.tick < (c.run s).state.tick) :
    ∃ (data : Storage) (i : Nat), c.Meets s front event data ∧
      (i : Int) = (if 0 ≤ event.address then event.address else event.address + data.ram.size) ∧
      ∀ j, c.Writes s front event j ↔ j = i := by
  obtain ⟨t, data, hreach, hdone, htick, hperform⟩ := exists_reaches_of_lt_tick hwords hs hle hlt
  -- of the events due at its tick, those of `front` come before it
  have hdue : c.schedule.due event.tick =
      front.due event.tick ++ event :: Schedule.due back event.tick := by
    rw [hschedule, Schedule.due, List.filter_append]
    exact congrArg _ (List.filter_cons_of_pos (beq_self_eq_true event.tick))
  rw [hdue] at hperform
  obtain ⟨before, i, after, hbefore, hwrite⟩ := Storage.exists_writesAt_of_perform hperform
  have hmeets : c.Meets s front event before := ⟨t, hreach, hdone, htick, hbefore⟩
  have hwrites : c.Writes s front event i := ⟨before, after, hmeets, hwrite⟩
  refine ⟨before, i, hmeets, ?_, fun j => ⟨fun hj => hj.unique hwords hs hwrites, ?_⟩⟩
  · -- a negative address counts from the end of the memory as it is at that moment
    have hlocate := hwrite.locate
    split
    · rename_i hnonneg
      rw [before.ram.locate_of_nonneg hnonneg] at hlocate
      injection hlocate with hi
      omega
    · rename_i hneg
      rw [before.ram.locate_of_neg (Int.not_le.1 hneg)] at hlocate
      split at hlocate
      · injection hlocate with hi
        omega
      · cases hlocate
  · rintro rfl
    exact hwrites

end Events

/-- What a run from the state `s` makes of a schedule. -/
structure Heeds (c : Computer) (s : State) : Prop where
  /-- An event at a tick before the start is not performed. -/
  early {front back : Schedule} {event : Event} (hschedule : c.schedule = front ++ event :: back)
    (hlt : event.tick < s.tick) (i : Nat) : ¬ c.Writes s front event i
  /-- An event before whose tick the run does not end is written into one cell, which is found from
  the end of the memory if the address is negative. -/
  due {front back : Schedule} {event : Event} (hschedule : c.schedule = front ++ event :: back)
    (hle : s.tick ≤ event.tick) (hlt : event.tick < (c.run s).state.tick) :
    ∃ (data : Storage) (i : Nat), c.Meets s front event data ∧
      (i : Int) = (if 0 ≤ event.address then event.address else event.address + data.ram.size) ∧
      ∀ j, c.Writes s front event j ↔ j = i
  /-- Only an event at a negative address can stop the run, at its tick. -/
  fault {cause : Fault} {t : State} (h : c.run s = .fault cause t) :
    ∃ event ∈ c.schedule, cause = .ramWrite event.address ∧ event.address < 0 ∧
      event.tick = t.tick ∧ s.tick ≤ t.tick

theorem heeds (hwords : c.HasWords) (hs : s.IsSound) : c.Heeds s where
  early _ hlt := not_writes_of_tick_lt hwords hs hlt
  due hschedule hle hlt := writes_of_lt_tick hwords hs hschedule hle hlt
  fault h := fault_of_runFor hwords hs h

/-! ### A program that runs for long -/

/-- A program of `n` loads, started at its beginning, runs for that many ticks if it is not
stopped. -/
theorem le_tick_of_loads (hwords : c.HasWords) {n : Nat} (hrom : c.rom = Array.replicate n 0)
    (hlimit : c.tickLimit = n) (hs : s.IsSound) (hpc : s.pc = s.tick)
    (hhalt : s.halted = true → (n : Int) ≤ s.tick) {fuel : Nat} (hfuel : (n : Int) - s.tick ≤ fuel)
    (h : c.runFor fuel s = .ok t) : (n : Int) ≤ t.tick := by
  induction fuel generalizing s with
  | zero =>
    injection h with h
    rw [← h]
    omega
  | succ fuel ih =>
    rcases runFor_succ_cases hs fuel with ⟨hdone, hrest⟩ | ⟨hdone, ⟨cause, data, -, hrest⟩ |
      ⟨data, hperform, -, hrest⟩⟩
    · rw [hrest] at h
      injection h with h
      rw [← h]
      rcases isDone_iff.1 hdone with hhalted | hlate
      · exact hhalt hhalted
      · rwa [hlimit] at hlate
    · rw [hrest] at h
      cases h
    · obtain ⟨-, hlt⟩ := isDone_eq_false_iff.1 hdone
      -- each word loads zero into `A`, so that the program counter keeps up with the tick
      have hfetch : c.rom[s.pc.toNat]? = some 0 := by
        have := hs.pc
        rw [hrom, Array.getElem?_replicate, if_pos (by omega)]
      have hfollow : c.follow data s =
          ⟨{ data with a := 0 }, s.pc + 1, some 0, s.tick + 1, c.isPastEnd (s.pc + 1), s.pc⟩ := by
        rw [follow, hfetch]
        rfl
      have hsound := isSound_follow hwords (hs.data.perform hperform) hs
      rw [hrest] at h
      rw [hfollow] at h hsound
      refine ih hsound (congrArg (· + 1) hpc) (fun hend => ?_) ?_ h
      · have hend : c.isPastEnd (s.pc + 1) = true := hend
        rw [isPastEnd, decide_eq_true_eq, hrom, Array.size_replicate] at hend
        show (n : Int) ≤ s.tick + 1
        omega
      · show (n : Int) - (s.tick + 1) ≤ fuel
        omega

/-- Some run lasts beyond any tick, if it is not stopped. -/
theorem exists_run_beyond (schedule : Schedule) (ramWords tick : Int) :
    ∃ c : Computer, c.schedule = schedule ∧ c.HasWords ∧
      ∀ t, c.run (State.fresh ramWords) = .ok t → tick < t.tick := by
  let c : Computer := ⟨Array.replicate (tick + 1).toNat 0, schedule, (tick + 1).toNat⟩
  have hwords : c.HasWords := by
    intro word hword
    rw [(Array.mem_replicate.1 hword).2]
    decide
  refine ⟨c, rfl, hwords, fun t ht => ?_⟩
  have hbeyond := le_tick_of_loads hwords rfl rfl (State.isSound_fresh ramWords) rfl
    (fun hhalt => nomatch hhalt) (Int.self_le_toNat _) ht
  omega

end Computer

/-! ### Schedules that take effect -/

open Computer

/-- Every run of every program of words performs the schedule as it is written: the run is not
stopped, and each event before whose tick it does not end is written into the cell at its address
and into no other. -/
def Schedule.TakesEffect (schedule : Schedule) : Prop :=
  ∀ c : Computer, c.schedule = schedule → c.HasWords → ∀ ramWords : Int,
    (∃ t, c.run (State.fresh ramWords) = .ok t) ∧
      ∀ front event back, schedule = front ++ event :: back →
        event.tick < (c.run (State.fresh ramWords)).state.tick →
        ∃ i : Nat, (i : Int) = event.address ∧
          ∀ j, c.Writes (State.fresh ramWords) front event j ↔ j = i

/-- Schedules without negative ticks and addresses take effect, and no others do. -/
theorem takesEffect_iff (schedule : Schedule) :
    schedule.TakesEffect ↔ ∀ event ∈ schedule, 0 ≤ event.tick ∧ 0 ≤ event.address := by
  constructor
  · intro h event hevent
    obtain ⟨front, back, hsplit⟩ := List.append_of_mem hevent
    -- some run goes beyond the tick of the event, whatever it is
    obtain ⟨c, hschedule, hwords, hbeyond⟩ := exists_run_beyond schedule 1 event.tick
    obtain ⟨⟨t, ht⟩, htakes⟩ := h c hschedule hwords 1
    rw [ht] at htakes
    obtain ⟨i, hi, hwrites⟩ := htakes front event back hsplit (hbeyond t ht)
    refine ⟨Int.not_lt.1 fun hneg => ?_, by omega⟩
    exact not_writes_of_tick_lt hwords (State.isSound_fresh 1) hneg i ((hwrites i).2 rfl)
  · rintro h c rfl hwords ramWords
    have hheeds := heeds hwords (State.isSound_fresh ramWords)
    refine ⟨?_, fun front event back hsplit hlt => ?_⟩
    · -- a run only faults at a negative address
      cases hrun : c.run (State.fresh ramWords) with
      | ok t => exact ⟨t, rfl⟩
      | fault cause t =>
        obtain ⟨event, hmem, -, hneg, -⟩ := hheeds.fault hrun
        exact absurd (h event hmem).2 (Int.not_le.2 hneg)
    · obtain ⟨htick, haddress⟩ := h event (hsplit ▸ List.mem_append_cons_self)
      obtain ⟨data, i, -, hi, hwrites⟩ := hheeds.due hsplit htick hlt
      rw [if_pos haddress] at hi
      exact ⟨i, hi, hwrites⟩

end HackToolchain.Machine
