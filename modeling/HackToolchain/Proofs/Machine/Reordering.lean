import HackToolchain.Proofs.Machine.MemorySize
import Mathlib.Data.List.Induction

/-!
# Schedules in a different order

What a schedule does to a machine is settled by the last entry that it has for each tick and each
address.  So the order of the entries matters only among those with the same tick and address, of
which the last one wins.

* `Ram.get_writeAll`: the contents of a memory after some writes, without regard to the order of
  writes to different cells;
* `Computer.next_of_agrees`: under schedules with the same last entries, the next states are the
  same;
* `run_reordered`: so reordered schedules make no difference after any step.
-/

namespace HackToolchain.Machine

open Asm

/-! ### Memories after some writes -/

namespace Ram

/-- After some writes, a cell holds what has been written to it last. -/
theorem get_writeAll (ram : Ram) {events : List Event} (h : ∀ event ∈ events, 0 ≤ event.address)
    (i : Nat) :
    (ram.writeAll events).get i =
      ((events.filter (·.address == (i : Int))).getLast?.map fun event =>
        Word.toNat event.value).getD (ram.get i) := by
  -- the last write is split off, since it decides for its own cell
  induction events using List.reverseRecOn with
  | nil => rfl
  | append_singleton events event ih =>
    obtain ⟨hevents, hevent⟩ := List.forall_mem_append.1 h
    have haddress := hevent event (List.mem_singleton_self event)
    rw [writeAll, List.foldl_append, List.foldl_cons, List.foldl_nil, get_put, List.filter_append]
    by_cases hi : event.address = i
    · have hhit : [event].filter (·.address == (i : Int)) = [event] :=
        List.filter_cons_of_pos (beq_iff_eq.2 hi)
      rw [if_pos (by omega), hhit, List.getLast?_concat]
      rfl
    · have hmiss : [event].filter (·.address == (i : Int)) = [] :=
        List.filter_cons_of_neg (fun heq => hi (beq_iff_eq.1 heq))
      rw [if_neg (by omega), hmiss, List.append_nil]
      exact ih hevents

end Ram

/-! ### Schedules -/

namespace Schedule

/-- The entries of a schedule for a tick and an address, in order. -/
def entries (schedule : Schedule) (tick address : Int) : List Event :=
  schedule.filter fun event => event.tick == tick && event.address == address

/-- The schedules have the same entries, and those with the same tick and the same address stand in
the same order. -/
structure Reorders (xs ys : Schedule) : Prop where
  perm : xs.Perm ys
  entries_eq : ∀ tick address, xs.entries tick address = ys.entries tick address

/-- It is enough to look at the ticks and the addresses of the entries. -/
theorem reorders_of_perm {xs ys : Schedule} (hperm : xs.Perm ys)
    (h : ∀ event ∈ xs, xs.entries event.tick event.address = ys.entries event.tick event.address) :
    xs.Reorders ys := by
  refine ⟨hperm, fun tick address => ?_⟩
  have hentries : (xs.entries tick address).Perm (ys.entries tick address) := hperm.filter _
  cases hxs : xs.entries tick address with
  | nil =>
    rw [hxs] at hentries
    exact hentries.nil_eq
  | cons event rest =>
    have hmem : event ∈ xs.entries tick address := by
      rw [hxs]
      exact List.mem_cons_self
    obtain ⟨hevent, hkey⟩ := List.mem_filter.1 hmem
    rw [Bool.and_eq_true, beq_iff_eq, beq_iff_eq] at hkey
    rw [← hxs, ← hkey.1, ← hkey.2]
    exact h event hevent

/-- The schedules have the same last entry for each tick and each address. -/
def Agrees (xs ys : Schedule) : Prop :=
  ∀ tick address, (xs.entries tick address).getLast? = (ys.entries tick address).getLast?

variable {xs ys : Schedule}

theorem Reorders.agrees (h : xs.Reorders ys) : xs.Agrees ys :=
  fun tick address => congrArg List.getLast? (h.entries_eq tick address)

theorem filter_due (schedule : Schedule) (tick address : Int) :
    (schedule.due tick).filter (·.address == address) = schedule.entries tick address := by
  rw [due, entries, List.filter_filter]
  exact List.filter_congr fun event _ => Bool.and_comm _ _

theorem forall_mem_due {p : Event → Prop} (h : ∀ event ∈ xs, p event) (tick : Int) :
    ∀ event ∈ xs.due tick, p event :=
  fun event hevent => h event (List.mem_filter.1 hevent).1

/-- An entry of one schedule has one with its tick and its address in the other. -/
theorem Agrees.exists_mem (h : xs.Agrees ys) {event : Event} (hmem : event ∈ xs) :
    ∃ other ∈ ys, other.tick = event.tick ∧ other.address = event.address := by
  have hentries : event ∈ xs.entries event.tick event.address :=
    List.mem_filter.2 ⟨hmem, by simp⟩
  have hsome : (xs.entries event.tick event.address).getLast?.isSome = true :=
    List.getLast?_isSome.2 (List.ne_nil_of_mem hentries)
  rw [h] at hsome
  obtain ⟨other, hother⟩ := Option.isSome_iff_exists.1 hsome
  obtain ⟨hys, hkey⟩ := List.mem_filter.1 (List.mem_of_getLast? hother)
  rw [Bool.and_eq_true, beq_iff_eq, beq_iff_eq] at hkey
  exact ⟨other, hys, hkey⟩

theorem Agrees.symm (h : xs.Agrees ys) : ys.Agrees xs :=
  fun tick address => (h tick address).symm

theorem Agrees.hasLater_eq (h : xs.Agrees ys) (tick : Int) :
    xs.hasLater tick = ys.hasLater tick := by
  have himp {xs ys : Schedule} (h : xs.Agrees ys) (hlater : xs.hasLater tick = true) :
      ys.hasLater tick = true := by
    obtain ⟨event, hmem, hevent⟩ := List.any_eq_true.1 hlater
    obtain ⟨other, hother, htick, -⟩ := h.exists_mem hmem
    exact List.any_eq_true.2 ⟨other, hother, by rw [htick]; exact hevent⟩
  rw [Bool.eq_iff_iff]
  exact ⟨himp h, himp h.symm⟩

theorem Agrees.forall_due (h : xs.Agrees ys) {tick : Int} {bound : Nat}
    (hxs : ∀ event ∈ xs.due tick, event.address.toNat < bound) :
    ∀ event ∈ ys.due tick, event.address.toNat < bound := by
  intro event hevent
  obtain ⟨hmem, htick⟩ := List.mem_filter.1 hevent
  obtain ⟨other, hother, hsame, haddress⟩ := h.symm.exists_mem hmem
  rw [← haddress]
  exact hxs other (List.mem_filter.2 ⟨hother, by rw [hsame]; exact htick⟩)

/-- The writes of a tick leave the same memory behind. -/
theorem Agrees.writeAll_due_eq (h : xs.Agrees ys) (hxs : ∀ event ∈ xs, 0 ≤ event.address)
    (hys : ∀ event ∈ ys, 0 ≤ event.address) (tick : Int) (ram : Ram) :
    ram.writeAll (xs.due tick) = ram.writeAll (ys.due tick) := by
  have halike : (ram.writeAll (xs.due tick)).Alike (ram.writeAll (ys.due tick)) := by
    intro i
    rw [Ram.get_writeAll ram (forall_mem_due hxs tick),
      Ram.get_writeAll ram (forall_mem_due hys tick), filter_due, filter_due, h tick i]
  -- the bounds on the two sizes are the same, and so are the sizes
  have hsize (bound : Nat) : (ram.writeAll (xs.due tick)).size ≤ bound ↔
      (ram.writeAll (ys.due tick)).size ≤ bound := by
    rw [Ram.size_writeAll_le_iff, Ram.size_writeAll_le_iff]
    exact and_congr_right fun _ => ⟨h.forall_due, h.symm.forall_due⟩
  exact halike.eq (Nat.le_antisymm ((hsize _).2 (Nat.le_refl _)) ((hsize _).1 (Nat.le_refl _)))

end Schedule

/-! ### Machines -/

namespace Computer

variable {c : Computer} {schedule : Schedule}

/-- The machine under another schedule. -/
def withSchedule (c : Computer) (schedule : Schedule) : Computer :=
  { c with schedule := schedule }

/-- Under schedules with the same last entries, the next states are the same. -/
theorem next_of_agrees (h : c.schedule.Agrees schedule)
    (hc : ∀ event ∈ c.schedule, 0 ≤ event.address) (hs : ∀ event ∈ schedule, 0 ≤ event.address) :
    (c.withSchedule schedule).next = c.next := by
  funext s
  have hdue : (c.withSchedule schedule).dueStorage s = c.dueStorage s := by
    unfold dueStorage
    rw [h.writeAll_due_eq hc hs]
    rfl
  have hidles (word : Int) (pc target : Nat) :
      (c.withSchedule schedule).idles word pc target s.tick = c.idles word pc target s.tick := by
    unfold idles
    rw [h.hasLater_eq]
    rfl
  unfold next proceed
  rw [hdue]
  simp only [hidles]
  rfl

end Computer

open Computer

/-- A machine under a schedule is in the same state after every step under a reordered one, and so
when a run has ended.  When the writes of a tick have been performed, each cell holds the value of
the last entry for this tick and its address, or what it held before if there is none. -/
theorem run_reordered {c : Computer} (hc : c.IsWellFormed) {schedule : Schedule}
    (h : c.schedule.Reorders schedule) (ramWords : Int) :
    (∀ n, ∃ s, c.ticks n (State.fresh ramWords) = .ok s ∧
      (c.withSchedule schedule).ticks n (State.fresh ramWords) = .ok s) ∧
    (∀ n, ∃ s, c.runFor n (State.fresh ramWords) = .ok s ∧
      (c.withSchedule schedule).runFor n (State.fresh ramWords) = .ok s) ∧
    (∃ s, c.run (State.fresh ramWords) = .ok s ∧
      (c.withSchedule schedule).run (State.fresh ramWords) = .ok s) ∧
    ∀ s, ∃ ram, c.performDue s = .ok { s with data := { s.data with ram := ram } } ∧
      ∀ i : Nat, ram.get i = ((c.schedule.entries s.tick i).getLast?.map fun event =>
        Word.toNat event.value).getD (s.data.ram.get i) := by
  have hs := State.isSound_fresh ramWords
  have hother : (c.withSchedule schedule).IsWellFormed :=
    ⟨hc.words, fun event hevent => hc.addresses event (h.perm.mem_iff.2 hevent)⟩
  -- what is due at a tick leaves the same memory, so that all steps are the same
  have hnext := next_of_agrees h.agrees hc.addresses hother.addresses
  have hadvance : (c.withSchedule schedule).advance = c.advance := by
    unfold advance
    rw [hnext]
    rfl
  have hrun (n : Nat) : ∃ s, c.runFor n (State.fresh ramWords) = .ok s ∧
      (c.withSchedule schedule).runFor n (State.fresh ramWords) = .ok s :=
    ⟨_, runFor_eq_iterate hc hs n, by rw [runFor_eq_iterate hother hs, hadvance]⟩
  refine ⟨fun n => ⟨_, ticks_eq_iterate hc hs n, by rw [ticks_eq_iterate hother hs, hnext]⟩, hrun,
    hrun _, fun s => ⟨_, hc.performDue_eq s, fun i => ?_⟩⟩
  rw [Ram.get_writeAll _ (Schedule.forall_mem_due hc.addresses s.tick), Schedule.filter_due]

/-- A program that adds a cell to `D` again and again, while the cell is written from outside. -/
def addingUp : Computer where
  rom := #[16, 0xF090, 0, 0xEA87]
  schedule := [⟨0, 16, 5⟩, ⟨4, 40, 1⟩, ⟨0, 16, 7⟩, ⟨4, 16, 2⟩, ⟨4, 20, 3⟩]

/-- The schedule in a different order; the two entries for the first tick stay in theirs. -/
def addingUpReordered : Schedule :=
  [⟨4, 20, 3⟩, ⟨4, 16, 2⟩, ⟨0, 16, 5⟩, ⟨0, 16, 7⟩, ⟨4, 40, 1⟩]

theorem run_reordered_addingUp :
    addingUp.schedule.Reorders addingUpReordered ∧
      ∃ s, addingUp.ticks 6 (State.fresh 1) = .ok s ∧
        (addingUp.withSchedule addingUpReordered).ticks 6 (State.fresh 1) = .ok s ∧
        s.data.d = 9 ∧ s.data.ram.size = 41 := by
  have hreorders : addingUp.schedule.Reorders addingUpReordered :=
    Schedule.reorders_of_perm (by decide) (by decide)
  obtain ⟨s, hs, hs'⟩ := (run_reordered (by decide) hreorders 1).1 6
  have hd : (addingUp.ticks 6 (State.fresh 1)).state.data.d = 9 := by decide +kernel
  have hsize : (addingUp.ticks 6 (State.fresh 1)).state.data.ram.size = 41 := by decide +kernel
  rw [hs] at hd hsize
  exact ⟨hreorders, s, hs, hs', hd, hsize⟩

end HackToolchain.Machine
