import HackToolchain.Machine.Trace

/-!
# Runs with a trace

A trace reads the first three cells of the memory, and so leaves a memory as it is that has them.
The memory of a machine never shrinks.

* `Computer.le_size_step`: after a step the memory has at least the cells that it had before;
* `Computer.run_of_runTraced`: a run with a trace that ends well ends in the same state without one.
-/

namespace HackToolchain.Machine

open Asm

/-! ### Memories that do not shrink -/

namespace Storage

theorem le_size_write (address value : Int) (data : Storage) :
    data.ram.size ≤ (data.write address value).state.ram.size := by
  unfold write
  cases data.ram.locate address with
  | none => exact Nat.le_refl _
  | some i =>
    show _ ≤ (data.ram.put i value).size
    rw [Ram.size_put]
    exact Nat.le_max_left _ _

theorem le_size_perform (events : List Event) (data : Storage) :
    data.ram.size ≤ (data.perform events).state.ram.size := by
  induction events generalizing data with
  | nil => exact Nat.le_refl _
  | cons event events ih =>
    have hwrite := le_size_write event.address event.value data
    rw [perform]
    cases hevent : data.write event.address event.value with
    | ok data' =>
      rw [hevent] at hwrite
      exact Nat.le_trans hwrite (ih data')
    | fault cause data' =>
      rw [hevent] at hwrite
      exact hwrite

theorem le_size_compute (code : Nat) (data : Storage) :
    data.ram.size ≤ (data.compute code).state.ram.size := by
  unfold compute
  split
  · cases data.ram.locate data.a with
    | none => exact Nat.le_refl _
    | some i =>
      show _ ≤ (data.ram.grow i).size
      rw [Ram.size_grow]
      exact Nat.le_max_left _ _
  · exact Nat.le_refl _

theorem le_size_store (dest : Nat) (address : Int) (data : Storage) :
    data.ram.size ≤ (data.store dest address).state.ram.size := by
  have hkeep (data' : Storage) (out : Int) :
      (let data := if dest.testBit 1 then { data' with d := out } else data'
        if dest.testBit 2 then { data with a := out } else data).ram = data'.ram := by
    grind
  have hwrite : data.ram.size ≤
      (if dest.testBit 0 then data.write address data.out else .ok data).state.ram.size := by
    split
    · exact le_size_write address data.out data
    · exact Nat.le_refl _
  unfold store
  dsimp only
  cases hwritten : if dest.testBit 0 then data.write address data.out else .ok data with
  | ok data' =>
    rw [hwritten] at hwrite
    exact Nat.le_trans hwrite (Nat.le_of_eq (congrArg Ram.size (hkeep data' data.out).symm))
  | fault cause data' =>
    rw [hwritten] at hwrite
    exact hwrite

end Storage

namespace Computer

variable {c : Computer} {s s' : State}

/-- The memory does not shrink when two steps that do not shrink it follow each other. -/
theorem le_size_andThen {x : Outcome State} {f : State → Outcome State} {n : Nat}
    (hx : n ≤ x.state.data.ram.size) (hf : ∀ s, s.data.ram.size ≤ (f s).state.data.ram.size) :
    n ≤ (x.andThen f).state.data.ram.size := by
  cases x with
  | ok s => exact Nat.le_trans hx (hf s)
  | fault cause s => exact hx

theorem le_size_branch (c : Computer) (jump : Nat) (target : Int) (s : State) :
    s.data.ram.size ≤ (c.branch jump target s).state.data.ram.size := by
  have hfinish (pc : Int) (s' : State) : (c.finish pc s').data = s'.data := rfl
  unfold branch
  grind [Outcome.state]

theorem le_size_execute (c : Computer) (word : Int) (s : State) :
    s.data.ram.size ≤ (c.execute word s).state.data.ram.size := by
  unfold execute
  dsimp only
  split
  · apply le_size_andThen _ (c.le_size_branch _ _)
    rw [Outcome.state_map]
    have hcompute := s.data.le_size_compute (Word.code word)
    cases hcode : s.data.compute (Word.code word) with
    | ok data =>
      rw [hcode] at hcompute
      exact Nat.le_trans hcompute (data.le_size_store _ _)
    | fault cause data =>
      rw [hcode] at hcompute
      exact hcompute
  · exact Nat.le_refl _

theorem le_size_instruction (c : Computer) (s : State) :
    s.data.ram.size ≤ (c.instruction s).state.data.ram.size := by
  unfold instruction
  split
  · exact Nat.le_refl _
  · dsimp only
    split
    · exact Nat.le_refl _
    · exact c.le_size_execute _ { s with lastFetch := s.pc, ir := _ }

/-- The memory does not shrink in a step. -/
theorem le_size_step (c : Computer) (s : State) :
    s.data.ram.size ≤ (c.step s).state.data.ram.size := by
  rw [step]
  split
  · exact Nat.le_refl _
  · apply le_size_andThen _ c.le_size_instruction
    rw [performDue, Outcome.state_map]
    exact s.data.le_size_perform _

/-! ### Traces -/

/-- A trace does not grow a memory that has the cells that it shows. -/
theorem growForTrace_eq (h : 3 ≤ s.data.ram.size) : growForTrace s = s := by
  obtain ⟨⟨a, d, out, zr, ng, ⟨cells, size_pos⟩⟩, pc, ir, tick, halted, lastFetch⟩ := s
  have hnone : 2 + 1 - cells.size = 0 := Nat.sub_eq_zero_of_le h
  simp only [growForTrace, Ram.grow, hnone, Array.replicate_zero, Array.append_empty]

theorem runFor_of_runTracedFor {n : Nat} {trace text : String} (hsize : 3 ≤ s.data.ram.size)
    (h : c.runTracedFor n trace s = (text, .ok s')) : c.runFor n s = .ok s' := by
  induction n generalizing trace s with
  | zero => exact (Prod.mk.injEq .. ▸ h).2
  | succ n ih =>
    rw [runTracedFor] at h
    rw [runFor]
    split
    · rename_i hdone
      rw [if_pos hdone] at h
      exact (Prod.mk.injEq .. ▸ h).2
    · rename_i hdone
      rw [if_neg hdone, showNext] at h
      cases htext : c.instructionText s.pc with
      | error cause =>
        rw [htext] at h
        cases h
      | ok line =>
        -- the line looks at three cells, which are there, and no step takes them away
        simp only [htext, growForTrace_eq hsize] at h
        have hstep := c.le_size_step s
        cases hs : c.step s with
        | ok t =>
          rw [hs] at h hstep
          exact ih (Nat.le_trans hsize hstep) h
        | fault cause t =>
          rw [hs] at h
          cases h

/-- A run with a trace that ends well ends in the same state without one, if the memory has the
cells that the trace shows. -/
theorem run_of_runTraced {text : String} (hsize : 3 ≤ s.data.ram.size)
    (h : c.runTraced s = (text, .ok s')) : c.run s = .ok s' :=
  runFor_of_runTracedFor hsize h

end Computer

end HackToolchain.Machine
