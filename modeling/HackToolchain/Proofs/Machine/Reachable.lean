import HackToolchain.Proofs.Machine.Transition

/-!
# Reachable states

What holds after any number of ticks from a fresh state, whatever the program, the schedule and the
number of cells that the memory starts with.

* `looksOnlyAt_reads`: of the program, a step depends on the words at the addresses `reads` alone;
* `size_next_le`: the memory does not grow beyond the sixteen-bit addresses and the scheduled ones;
* `ticks_stay_sound`: the next step is made without a fault and looks at no address outside the
  program, all registers and cells are words, and the memory keeps within its bound.
-/

namespace HackToolchain.Machine

open Asm

/-! ### The program words that a step looks at -/

namespace Computer

variable {c c' : Computer} {s : State}

/-- The addresses of the program words that a step looks at: the instruction, and, behind a jump
that is always taken and leads just before itself, the word there. -/
def reads (c : Computer) (s : State) : List Int :=
  if s.halted || c.isPastEnd s.pc then []
  else
    match c.fetch? s.pc with
    | none => [s.pc]
    | some word =>
      if Word.isCompute word && Word.jump word == 7 && s.data.a == s.pc - 1 then [s.pc, s.data.a]
      else [s.pc]

theorem pc_mem_reads (hrun : s.halted = false) (hinside : c.isPastEnd s.pc = false) :
    s.pc ∈ c.reads s := by
  rw [reads, hrun, hinside, if_neg (by decide)]
  split
  · exact List.mem_singleton_self _
  · split <;> exact List.mem_cons_self

theorem target_mem_reads (hrun : s.halted = false) (hinside : c.isPastEnd s.pc = false) {word : Int}
    (hfetch : c.fetch? s.pc = some word) (hcompute : Word.isCompute word = true)
    (hjump : Word.jump word = 7) (htarget : s.data.a = s.pc - 1) : s.data.a ∈ c.reads s := by
  rw [reads, hrun, hinside, if_neg (by decide), hfetch]
  dsimp only
  rw [hcompute, hjump, if_pos (by simp [htarget])]
  exact List.mem_cons_of_mem _ List.mem_cons_self

theorem closesIdleLoop_congr (hschedule : c.schedule = c'.schedule) {target lastFetch tick : Int}
    (h : target = lastFetch - 1 → c.fetch? target = c'.fetch? target) :
    c.closesIdleLoop target lastFetch tick = c'.closesIdleLoop target lastFetch tick := by
  unfold closesIdleLoop
  split
  · rename_i htarget
    rw [h htarget, hschedule]
  · rfl

theorem finish_congr (hsize : c.rom.size = c'.rom.size) (pc : Int) (s : State) :
    c.finish pc s = c'.finish pc s := by
  unfold finish isPastEnd
  rw [hsize]

theorem branch_congr (hsize : c.rom.size = c'.rom.size) (hschedule : c.schedule = c'.schedule)
    {jump : Nat} {target : Int}
    (h : jump = 7 → target = s.lastFetch - 1 → c.fetch? target = c'.fetch? target) :
    c.branch jump target s = c'.branch jump target s := by
  unfold branch
  simp only [finish_congr hsize]
  by_cases hjump : jump = 7
  · simp only [closesIdleLoop_congr hschedule (h hjump)]
  · simp only [hjump, if_false]

theorem execute_congr (hsize : c.rom.size = c'.rom.size) (hschedule : c.schedule = c'.schedule)
    {word : Int}
    (h : Word.isCompute word = true → Word.jump word = 7 → s.data.a = s.lastFetch - 1 →
      c.fetch? s.data.a = c'.fetch? s.data.a) :
    c.execute word s = c'.execute word s := by
  obtain ⟨data, pc, ir, tick, halted, lastFetch⟩ := s
  unfold execute
  simp only [finish_congr hsize]
  split
  · rename_i hcompute
    -- the jump is made from the storage that the instruction leaves, if it is done at all
    cases (data.compute (Word.code word)).andThen (Storage.store (Word.dest word) data.a) with
    | fault cause data' => rfl
    | ok data' => exact branch_congr hsize hschedule (h hcompute)
  · rfl

/-- Of the program, its size apart, a step depends on the words at the addresses alone. -/
def LooksOnlyAt (c : Computer) (s : State) (addresses : List Int) : Prop :=
  ∀ c' : Computer, c.rom.size = c'.rom.size → c.schedule = c'.schedule →
    (∀ address ∈ addresses, c.fetch? address = c'.fetch? address) → c.step s = c'.step s

theorem looksOnlyAt_reads (c : Computer) (s : State) : c.LooksOnlyAt s (c.reads s) := by
  intro c' hsize hschedule h
  have hend (pc : Int) : c'.isPastEnd pc = c.isPastEnd pc := by
    unfold isPastEnd
    rw [hsize]
  have hdue : c'.performDue s = c.performDue s := by
    unfold performDue
    rw [hschedule]
  unfold step
  split
  · rfl
  · rename_i hrun
    rw [hdue]
    cases hwritten : c.performDue s with
    | fault cause s' => rfl
    | ok s' =>
      -- what is due leaves the program counter and the registers as they are
      have hsame := performDue_eq_ok hwritten
      generalize s'.data.ram = ram at hsame
      subst hsame
      show c.instruction _ = c'.instruction _
      unfold instruction
      dsimp only
      rw [hend]
      split
      · rfl
      · rename_i hinside
        rw [Bool.not_eq_true] at hrun hinside
        rw [← h _ (pc_mem_reads hrun hinside)]
        cases hfetch : c.fetch? s.pc with
        | none => rfl
        | some word =>
          exact execute_congr hsize hschedule fun hcompute hjump htarget =>
            h _ (target_mem_reads hrun hinside hfetch hcompute hjump htarget)

/-- From a sound state, a step looks at no address outside the program. -/
theorem bounds_of_mem_reads (hs : s.IsSound) {address : Int} (h : address ∈ c.reads s) :
    0 ≤ address ∧ address < c.rom.size := by
  unfold reads at h
  split at h
  · cases h
  · rename_i hinside
    have hpc : 0 ≤ s.pc ∧ s.pc < c.rom.size := by
      rw [Bool.not_eq_true, Bool.or_eq_false_iff, isPastEnd, decide_eq_false_iff_not] at hinside
      exact ⟨hs.pc, by omega⟩
    split at h
    · rwa [List.mem_singleton.1 h]
    · split at h
      · rename_i hjump
        rcases List.mem_cons.1 h with rfl | h
        · exact hpc
        · rw [Bool.and_eq_true, beq_iff_eq] at hjump
          rw [List.mem_singleton.1 h]
          exact ⟨hs.data.a.1, by omega⟩
      · rwa [List.mem_singleton.1 h]

end Computer

/-! ### The size of the memory -/

namespace Ram

variable (ram : Ram)

theorem le_size_writeAll (events : List Event) : ram.size ≤ (ram.writeAll events).size :=
  ((ram.size_writeAll_le_iff events _).1 (Nat.le_refl _)).1

theorem size_writeAll_le {bound : Int} (hram : ram.size ≤ bound) {events : List Event}
    (h : ∀ event ∈ events, event.address < bound) : (ram.writeAll events).size ≤ bound := by
  have hpos : 0 < ram.size := ram.size_pos
  obtain ⟨n, rfl⟩ := Int.eq_ofNat_of_zero_le (a := bound) (by omega)
  refine Int.ofNat_le.2 ((ram.size_writeAll_le_iff events n).2 ⟨Int.ofNat_le.1 hram, ?_⟩)
  intro event hevent
  have := h event hevent
  omega

end Ram

/-- An instruction leaves the memory as it is, or makes it grow up to the cell that `A` points
to. -/
theorem Storage.size_executed (data : Storage) (word : Int) :
    (data.executed word).ram.size = data.ram.size ∨
      (data.executed word).ram.size = max data.ram.size (data.a.toNat + 1) := by
  unfold executed
  split
  · simp only [stored, computed, setResult]
    cases (Word.code word).testBit 6 <;> cases (Word.dest word).testBit 0 <;> simp
  · exact .inl rfl

/-- The number of cells that a memory does not exceed: those that it starts with, those that the
sixteen-bit addresses can reach, and those that the schedule writes. -/
def Schedule.sizeBound (schedule : Schedule) (ramWords : Int) : Int :=
  schedule.foldr (fun event bound => max (event.address + 1) bound) (max (max 1 ramWords) 0x10000)

theorem Schedule.le_sizeBound (schedule : Schedule) (ramWords : Int) :
    max (max 1 ramWords) 0x10000 ≤ schedule.sizeBound ramWords := by
  induction schedule with
  | nil => exact Int.le_refl _
  | cons event schedule ih => exact Int.le_trans ih (Int.le_max_right _ _)

theorem Schedule.address_lt_sizeBound {schedule : Schedule} (ramWords : Int) {event : Event}
    (h : event ∈ schedule) : event.address < schedule.sizeBound ramWords := by
  induction schedule with
  | nil => cases h
  | cons first schedule ih =>
    rcases List.mem_cons.1 h with rfl | h
    · exact Int.le_max_left _ _
    · exact Int.lt_of_lt_of_le (ih h) (Int.le_max_right _ _)

section Size

variable {c : Computer} {s : State}

theorem Computer.le_size_next (c : Computer) (s : State) :
    s.data.ram.size ≤ (c.next s).data.ram.size := by
  have hdue : s.data.ram.size ≤ (c.dueStorage s).ram.size := Ram.le_size_writeAll _ _
  rcases c.next_cases s with ⟨-, hnext⟩ | ⟨-, -, hnext⟩ | ⟨-, word, -, hnext⟩
  · exact Nat.le_of_eq (by rw [hnext])
  · rwa [hnext]
  · rw [hnext]
    show _ ≤ ((c.dueStorage s).executed word).ram.size
    rcases (c.dueStorage s).size_executed word with h | h <;> omega

theorem Computer.size_next_le (hs : s.IsSound) {bound : Int} (hbound : 0x10000 ≤ bound)
    (hschedule : ∀ event ∈ c.schedule, event.address < bound)
    (hsize : s.data.ram.size ≤ bound) : (c.next s).data.ram.size ≤ bound := by
  have hdue : (c.dueStorage s).ram.size ≤ bound :=
    Ram.size_writeAll_le _ hsize fun event hevent => hschedule event (List.mem_filter.1 hevent).1
  rcases c.next_cases s with ⟨-, hnext⟩ | ⟨-, -, hnext⟩ | ⟨-, word, -, hnext⟩
  · rwa [hnext]
  · rwa [hnext]
  · rw [hnext]
    show (((c.dueStorage s).executed word).ram.size : Int) ≤ bound
    -- the register `A` is a word, and so leads to no cell beyond the bound
    have ha : (c.dueStorage s).a < 0x10000 := hs.data.a.2
    rcases (c.dueStorage s).size_executed word with h | h <;> omega

/-- The memory keeps within its bound. -/
theorem Computer.size_iterate_next_le (hc : c.IsWellFormed) (ramWords : Int) (n : Nat) :
    (c.next^[n] (State.fresh ramWords)).data.ram.size ≤ c.schedule.sizeBound ramWords := by
  have hle := c.schedule.le_sizeBound ramWords
  induction n with
  | zero =>
    show ((Ram.zeros ramWords).size : Int) ≤ _
    simp only [Ram.zeros, Ram.size, Array.size_replicate]
    omega
  | succ n ih =>
    rw [Function.iterate_succ_apply']
    exact size_next_le ((State.isSound_fresh ramWords).iterate_next hc n) (by omega)
      (fun _ => Schedule.address_lt_sizeBound ramWords) ih

end Size

/-! ### Every reachable state -/

theorem Ram.isWord_of_mem_values {ram : Ram} {value : Int} (h : value ∈ ram.values) :
    IsWord value := by
  obtain ⟨cell, -, rfl⟩ := Array.mem_map.1 h
  have := cell.toNat_lt
  constructor <;> omega

/-- After any number of ticks from a fresh state, the machine is in a sound state from which the
next step is made without a fault and without a look outside the program.  Cells are words, and the
memory does not shrink or exceed its bound. -/
theorem ticks_stay_sound {c : Computer} (hc : c.IsWellFormed) (ramWords : Int) (n : Nat) :
    ∃ s s', c.ticks n (State.fresh ramWords) = .ok s ∧ c.step s = .ok s' ∧ s.IsSound ∧
      (∀ value ∈ s.data.ram.values, IsWord value) ∧ c.LooksOnlyAt s (c.reads s) ∧
      (∀ address ∈ c.reads s, 0 ≤ address ∧ address < c.rom.size) ∧
      s.data.ram.size ≤ s'.data.ram.size ∧
      s.data.ram.size ≤ c.schedule.sizeBound ramWords := by
  have hfresh := State.isSound_fresh ramWords
  have hs := hfresh.iterate_next hc n
  exact ⟨_, _, Computer.ticks_eq_iterate hc hfresh n, Computer.step_eq_next hc hs, hs,
    fun _ => Ram.isWord_of_mem_values, c.looksOnlyAt_reads _,
    fun _ => Computer.bounds_of_mem_reads hs, c.le_size_next _,
    Computer.size_iterate_next_le hc ramWords n⟩

/-- A program that leads to the last address that `A` can hold, while a cell is written from
outside. -/
def lastAddress : Computer where
  rom := #[12, 0xEFC8, 0xEEA0, 0xEA87]
  schedule := [⟨1, 20, -1⟩, ⟨-5, 3, 0x12345⟩]

theorem ticks_stay_sound_lastAddress :
    ∃ s s', lastAddress.ticks 3 (State.fresh (-7)) = .ok s ∧ lastAddress.step s = .ok s' ∧
      s.IsSound ∧ s.data.a = 0xFFFF ∧ s.data.ram.get 20 = 0xFFFF ∧
      (∀ address ∈ lastAddress.reads s, 0 ≤ address ∧ address < 4) ∧
      21 ≤ s'.data.ram.size ∧ s.data.ram.size ≤ 0x10000 := by
  obtain ⟨s, s', hticks, hstep, hs, -, -, hreads, hgrow, hsize⟩ :=
    ticks_stay_sound (c := lastAddress) (by decide) (-7) 3
  have hbound : lastAddress.schedule.sizeBound (-7) = 0x10000 := by decide
  have ha : (lastAddress.ticks 3 (State.fresh (-7))).state.data.a = 0xFFFF := by rfl
  have hget : (lastAddress.ticks 3 (State.fresh (-7))).state.data.ram.get 20 = 0xFFFF := by rfl
  have hgrown : (lastAddress.ticks 3 (State.fresh (-7))).state.data.ram.size = 21 := by rfl
  rw [hticks] at ha hget hgrown
  rw [hbound] at hsize
  exact ⟨s, s', hticks, hstep, hs, ha, hget, hreads, hgrown ▸ hgrow, Int.ofNat_le.1 hsize⟩

end HackToolchain.Machine
