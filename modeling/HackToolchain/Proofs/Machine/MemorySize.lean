import HackToolchain.Machine.Report
import HackToolchain.Proofs.Machine.Transition

/-!
# The size of the memory does not show

A memory that grows on demand behaves like one that has all cells from the beginning.  Two machines
that start with memories of different sizes go through states that are `Alike`: they differ in the
number of cells at most, and cells that only one of them has are zero.

* `State.Alike.next`, `State.Alike.advance`: the next states of two such states are such again;
* `report_congr`: reports on two such memories are the same;
* `run_alike`: so the two machines agree after every tick, and their reports in the end.
-/

namespace HackToolchain.Machine

open Asm Text

/-! ### Memories -/

namespace Ram

variable {ram ram' : Ram}

/-- The memories have the same contents; beyond the end of a memory these are zero. -/
def Alike (ram ram' : Ram) : Prop :=
  ∀ i, ram.get i = ram'.get i

theorem Alike.grow (h : ram.Alike ram') (i : Nat) : (ram.grow i).Alike (ram'.grow i) := by
  intro j
  rw [get_grow, get_grow, h j]

theorem Alike.put (h : ram.Alike ram') (i : Nat) (value : Int) :
    (ram.put i value).Alike (ram'.put i value) := by
  intro j
  rw [get_put, get_put, h j]

theorem Alike.writeAll (h : ram.Alike ram') (events : List Event) :
    (ram.writeAll events).Alike (ram'.writeAll events) := by
  induction events generalizing ram ram' with
  | nil => exact h
  | cons event events ih => exact ih (h.put _ _)

/-- Memories of the same size with the same contents are the same. -/
theorem Alike.eq (h : ram.Alike ram') (hsize : ram.size = ram'.size) : ram = ram' := by
  obtain ⟨cells, size_pos⟩ := ram
  obtain ⟨cells', size_pos'⟩ := ram'
  have hcells : cells = cells' := by
    refine Array.ext hsize fun i hi hi' => ?_
    have hget := h i
    simp only [get, Array.getD_eq_getD_getElem?, Array.getElem?_eq_getElem hi,
      Array.getElem?_eq_getElem hi', Option.getD_some] at hget
    exact UInt16.toNat_inj.1 hget
  subst hcells
  rfl

theorem get_zeros (words : Int) (i : Nat) : (zeros words).get i = 0 := by
  simp only [get, zeros, Array.getD_eq_getD_getElem?, Array.getElem?_replicate]
  split <;> rfl

end Ram

/-! ### States -/

/-- The registers, the last result and the flags are the same, and the memories are alike. -/
structure Storage.Alike (x y : Storage) : Prop where
  a : x.a = y.a
  d : x.d = y.d
  out : x.out = y.out
  zr : x.zr = y.zr
  ng : x.ng = y.ng
  ram : x.ram.Alike y.ram

/-- The states differ in the number of memory cells at most. -/
structure State.Alike (s t : State) : Prop where
  data : s.data.Alike t.data
  pc : s.pc = t.pc
  ir : s.ir = t.ir
  tick : s.tick = t.tick
  halted : s.halted = t.halted
  lastFetch : s.lastFetch = t.lastFetch

theorem State.Alike.refl (s : State) : s.Alike s :=
  ⟨⟨rfl, rfl, rfl, rfl, rfl, fun _ => rfl⟩, rfl, rfl, rfl, rfl, rfl⟩

theorem State.alike_fresh (words words' : Int) : (State.fresh words).Alike (State.fresh words') :=
  have hram : (Ram.zeros words).Alike (Ram.zeros words') := fun i => by
    rw [Ram.get_zeros, Ram.get_zeros]
  ⟨⟨rfl, rfl, rfl, rfl, rfl, hram⟩, rfl, rfl, rfl, rfl, rfl⟩

namespace Storage

variable {x y : Storage}

/-- A computation sees the registers and the contents of the memory, but not the last result. -/
theorem computed_alike (ha : x.a = y.a) (hd : x.d = y.d) (hram : x.ram.Alike y.ram) (code : Nat) :
    (x.computed code).Alike (y.computed code) := by
  have hoperand : x.operand code = y.operand code := by
    unfold operand
    rw [ha, hram]
  have hresult : arithmetic code x.d (x.operand code) = arithmetic code y.d (y.operand code) := by
    rw [hd, hoperand]
  unfold computed
  rw [hresult]
  refine ⟨ha, hd, rfl, rfl, rfl, ?_⟩
  show Ram.Alike (if code.testBit 6 then x.ram.grow x.a.toNat else x.ram)
    (if code.testBit 6 then y.ram.grow y.a.toNat else y.ram)
  rw [ha]
  split
  · exact hram.grow _
  · exact hram

theorem Alike.stored (h : x.Alike y) (dest : Nat) (address : Int) :
    (x.stored dest address).Alike (y.stored dest address) := by
  refine ⟨?_, ?_, h.out, h.zr, h.ng, ?_⟩
  · simp only [Storage.stored, h.out, h.a]
  · simp only [Storage.stored, h.out, h.d]
  · simp only [Storage.stored, h.out]
    split
    · exact h.ram.put _ _
    · exact h.ram

theorem executed_alike (ha : x.a = y.a) (hd : x.d = y.d) (hram : x.ram.Alike y.ram) {word : Int}
    (hcompute : Word.isCompute word = true) : (x.executed word).Alike (y.executed word) := by
  unfold executed
  rw [hcompute, if_pos rfl, if_pos rfl, ha]
  exact (computed_alike ha hd hram _).stored _ _

theorem Alike.executed (h : x.Alike y) (word : Int) :
    (x.executed word).Alike (y.executed word) := by
  cases hcompute : Word.isCompute word with
  | true => exact executed_alike h.a h.d h.ram hcompute
  | false =>
    unfold Storage.executed
    rw [hcompute, if_neg Bool.false_ne_true, if_neg Bool.false_ne_true]
    exact ⟨rfl, h.d, h.out, h.zr, h.ng, h.ram⟩

end Storage

namespace State.Alike

variable {c : Computer} {s t : State}

theorem dueStorage (h : s.Alike t) (c : Computer) : (c.dueStorage s).Alike (c.dueStorage t) := by
  refine ⟨h.data.a, h.data.d, h.data.out, h.data.zr, h.data.ng, ?_⟩
  show (s.data.ram.writeAll (c.schedule.due s.tick)).Alike _
  rw [h.tick]
  exact h.data.ram.writeAll _

theorem proceed (h : s.Alike t) (word : Int) : (c.proceed word s).Alike (c.proceed word t) := by
  have hdue := h.dueStorage c
  have hafter := hdue.executed word
  have hpc : Computer.successor word s.pc (c.dueStorage s) ((c.dueStorage s).executed word) =
      Computer.successor word t.pc (c.dueStorage t) ((c.dueStorage t).executed word) := by
    unfold Computer.successor
    rw [hafter.zr, hafter.ng, hdue.a, h.pc]
  refine ⟨hafter, hpc, rfl, ?_, ?_, h.pc⟩
  · show s.tick + 1 = t.tick + 1
    rw [h.tick]
  · show (c.idles word s.pc.toNat s.data.a.toNat s.tick || c.isPastEnd _) =
      (c.idles word t.pc.toNat t.data.a.toNat t.tick || c.isPastEnd _)
    rw [hpc, h.pc, h.data.a, h.tick]

/-- The next states of two states that are alike are alike. -/
theorem next (h : s.Alike t) : (c.next s).Alike (c.next t) := by
  rcases c.next_cases s with ⟨hrun, hnext⟩ | ⟨hrun, hfetch, hnext⟩ | ⟨hrun, word, hfetch, hnext⟩
  · rw [hnext, Computer.next_of_halted (h.halted ▸ hrun)]
    exact h
  · rw [hnext, Computer.next_of_pastEnd (h.halted ▸ hrun) (h.pc ▸ hfetch)]
    exact ⟨h.dueStorage c, h.pc, h.ir, h.tick, rfl, h.lastFetch⟩
  · rw [hnext, Computer.next_of_fetch (h.halted ▸ hrun) (h.pc ▸ hfetch)]
    exact h.proceed word

theorem advance (h : s.Alike t) : (c.advance s).Alike (c.advance t) := by
  have hdone : c.isDone s = c.isDone t := by
    unfold Computer.isDone
    rw [h.halted, h.tick]
  unfold Computer.advance
  rw [hdone]
  split
  · exact h
  · exact h.next

/-- What keeps states alike does so any number of times. -/
theorem iterate {f : State → State} (hf : ∀ {s t}, s.Alike t → (f s).Alike (f t)) (h : s.Alike t)
    (n : Nat) : (f^[n] s).Alike (f^[n] t) := by
  induction n with
  | zero => exact h
  | succ n ih =>
    rw [Function.iterate_succ_apply', Function.iterate_succ_apply']
    exact hf ih

end State.Alike

/-! ### Reports -/

theorem Ram.getElem?_values (ram : Ram) {i : Nat} (h : i < ram.size) :
    ram.values[i]? = some (ram.get i : Int) := by
  have hcell : ram.cells[i]? = some ram.cells[i] := Array.getElem?_eq_getElem h
  rw [values, Array.getElem?_map, hcell, get, Array.getD_eq_getD_getElem?, hcell]
  rfl

/-- A report reads a memory as if it had all cells. -/
theorem reportValue_values (ram : Ram) {address : Int} (h : 0 ≤ address) :
    reportValue ram.values address = .ok (ram.get address.toNat : Int) := by
  have hsize : ram.values.size = ram.size := Array.size_map
  obtain ⟨i, rfl⟩ := Int.eq_ofNat_of_zero_le h
  unfold reportValue
  rw [hsize, Int.toNat_natCast]
  split
  · rename_i hbeyond
    have hcell : ram.cells[i]? = none := Array.getElem?_eq_none (Int.ofNat_le.1 hbeyond)
    rw [Ram.get, Array.getD_eq_getD_getElem?, hcell]
    rfl
  · rename_i hinside
    have hlt : i < ram.size := by omega
    rw [place?_natCast hlt]
    dsimp only
    rw [Array.getD_eq_getD_getElem?, ram.getElem?_values hlt, Option.getD_some]

/-- Reports on memories that are alike are the same. -/
theorem report_congr {ram ram' : Ram} (h : ram.Alike ram') {addresses : List Int}
    (haddresses : ∀ address ∈ addresses, 0 ≤ address) :
    report ram.values addresses = report ram'.values addresses := by
  have hlines :
      addresses.mapM (reportLine ram.values) = addresses.mapM (reportLine ram'.values) := by
    induction addresses with
    | nil => rfl
    | cons address addresses ih =>
      obtain ⟨haddress, hrest⟩ := List.forall_mem_cons.1 haddresses
      have hline : reportLine ram.values address = reportLine ram'.values address := by
        unfold reportLine
        rw [reportValue_values ram haddress, reportValue_values ram' haddress, h]
      rw [List.mapM_cons, List.mapM_cons, hline, ih hrest]
  unfold report
  rw [ram.getElem?_values ram.size_pos, ram'.getElem?_values ram'.size_pos, h, hlines]

/-! ### Runs -/

/-- Two machines that start with memories of different sizes agree after every tick, with or without
a tick limit, and so do their reports at the end of a run. -/
theorem run_alike {c : Computer} (hc : c.IsWellFormed) (words words' : Int) :
    (∀ n, ∃ s t, c.ticks n (State.fresh words) = .ok s ∧
      c.ticks n (State.fresh words') = .ok t ∧ s.Alike t) ∧
    (∀ n, ∃ s t, c.runFor n (State.fresh words) = .ok s ∧
      c.runFor n (State.fresh words') = .ok t ∧ s.Alike t) ∧
    ∃ s t, c.run (State.fresh words) = .ok s ∧ c.run (State.fresh words') = .ok t ∧ s.Alike t ∧
      ∀ addresses : List Int, (∀ address ∈ addresses, 0 ≤ address) →
        report s.data.ram.values addresses = report t.data.ram.values addresses := by
  have hs := State.isSound_fresh words
  have ht := State.isSound_fresh words'
  have hstart := State.alike_fresh words words'
  have hrun (n : Nat) := hstart.iterate (State.Alike.advance (c := c)) n
  refine ⟨fun n => ?_, fun n => ?_, ?_⟩
  · exact ⟨_, _, Computer.ticks_eq_iterate hc hs n, Computer.ticks_eq_iterate hc ht n,
      hstart.iterate State.Alike.next n⟩
  · exact ⟨_, _, Computer.runFor_eq_iterate hc hs n, Computer.runFor_eq_iterate hc ht n, hrun n⟩
  · exact ⟨_, _, Computer.runFor_eq_iterate hc hs _, Computer.runFor_eq_iterate hc ht _, hrun _,
      fun addresses h => report_congr (hrun _).data.ram h⟩

/-- A program that writes a cell behind one that is written from outside. -/
def smallWrites : Computer where
  rom := #[3, 0xEFC8]
  schedule := [⟨0, 2, -5⟩]

theorem run_alike_smallWrites :
    ∃ s t, smallWrites.run (State.fresh 0) = .ok s ∧ smallWrites.run (State.fresh 50) = .ok t ∧
      s.data.ram.size = 4 ∧ t.data.ram.size = 50 ∧ s.Alike t ∧
      report s.data.ram.values [2, 3, 1000] = report t.data.ram.values [2, 3, 1000] := by
  obtain ⟨-, -, s, t, hs, ht, halike, hreport⟩ := run_alike (c := smallWrites) (by decide) 0 50
  -- only two ticks are made, so that the run need not be unfolded up to its limit
  have hsmall : (smallWrites.run (State.fresh 0)).state.data.ram.size = 4 := by rfl
  have hlarge : (smallWrites.run (State.fresh 50)).state.data.ram.size = 50 := by rfl
  rw [hs] at hsmall
  rw [ht] at hlarge
  exact ⟨s, t, hs, ht, hsmall, hlarge, halike, hreport [2, 3, 1000] (by decide)⟩

end HackToolchain.Machine
