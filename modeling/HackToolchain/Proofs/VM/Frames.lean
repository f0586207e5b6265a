import HackToolchain.Proofs.VM.ListStack

/-!
# Frames

A call saves on the stack where its caller goes on and four base cells: a `Frame`.  The frames of
the activations under way are `Live` if the memory shows them, each at the end of the working stack
of the one that it returns to.

They stay live as long as each activation keeps to its working stack, which begins at `LCL`, and
nothing is popped into `SP`, `LCL`, `ARG` or a frame (`KeepsDiscipline`).

* `Live.local_step`: an instruction within an activation changes no frame;
* `Live.call`: a call adds a frame;
* `Live.returned`, `Live.ret`: a return takes the innermost frame away and restores what it holds.
-/

namespace HackToolchain.VM

open Asm Machine Code

/-! ### The discipline -/

/-- The cell belongs to the frame that begins at the given address. -/
def IsFrameCell (start : Nat) (x : Value) : Prop :=
  start ≤ x.toNat ∧ x.toNat < start + 5

namespace Instruction

/-- The number of values on the stack that an instruction works on. -/
def operands : Instruction → Nat
  | .operation op => if op.isUnary then 1 else 2
  | .pop .. | .ifGoto _ | .ret => 1
  | .call _ arguments => arguments.toNat
  | _ => 0

/-- By how much `SP` has to exceed `LCL` so that an instruction does not make it fall below. -/
def descent : Instruction → Nat
  | .operation op => if op.isUnary then 0 else 1
  | i => i.operands

/-- The number of values that an instruction pushes. -/
def growth : Instruction → Nat
  | .push .. => 1
  | .function _ locals => locals.toNat
  | .call .. => 5
  | _ => 0

/-- The addresses at which the frames of the activations under way begin, the innermost first, after
an instruction. -/
def startsAfter (m : Memory) (starts : List Nat) : Instruction → List Nat
  | .call .. => (m.cell .sp).toNat :: starts
  | .ret => starts.tail
  | _ => starts

end Instruction

/-- The cell that an instruction pops into. -/
def Instruction.target (address : String → Nat) (s : Scope) (m : Memory) :
    Instruction → Option Value
  | .pop segment index => some (segment.location address s index m)
  | _ => none

/-- The cell is none of those that calls rely on. -/
def IsFree (starts : List Nat) (x : Value) : Prop :=
  x ≠ Cell.sp.slot ∧ x ≠ Cell.lcl.slot ∧ x ≠ Cell.arg.slot ∧ ∀ start ∈ starts, ¬ IsFrameCell start x

instance (starts : List Nat) : DecidablePred (IsFree starts) :=
  fun x => inferInstanceAs (Decidable (x ≠ _ ∧ x ≠ _ ∧ x ≠ _ ∧ ∀ start ∈ starts,
    ¬ (start ≤ x.toNat ∧ x.toNat < start + 5)))

/-- An instruction keeps to the working stack of its activation, as far as it needs values there,
and does not pop into what calls rely on. -/
structure KeepsDiscipline (needs : Instruction → Nat) (address : String → Nat) (starts : List Nat)
    (p : Placed) (m : Memory) : Prop where
  /-- The program does not start anew. -/
  ne_start : p.instruction ≠ .start
  /-- The values that it needs stand on the working stack. -/
  needs_le : (m.cell .lcl).toNat + needs p.instruction ≤ (m.cell .sp).toNat
  /-- The stack stays below the end of the address space. -/
  fits : (m.cell .sp).toNat + p.instruction.growth ≤ 0x8000
  /-- Nothing is popped into `SP`, `LCL`, `ARG` or a frame. -/
  target_free : ∀ x ∈ p.instruction.target address p.scope m, IsFree starts x

instance (needs : Instruction → Nat) (address : String → Nat) (starts : List Nat) (p : Placed)
    (m : Memory) : Decidable (KeepsDiscipline needs address starts p m) :=
  decidable_of_iff
    (p.instruction ≠ .start ∧ (m.cell .lcl).toNat + needs p.instruction ≤ (m.cell .sp).toNat ∧
      (m.cell .sp).toNat + p.instruction.growth ≤ 0x8000 ∧
      (p.instruction.target address p.scope m).all (fun x => decide (IsFree starts x)) = true)
    ⟨fun ⟨hstart, hneeds, hfits, hfree⟩ =>
        ⟨hstart, hneeds, hfits, by simpa [Option.all_eq_true] using hfree⟩,
      fun ⟨hstart, hneeds, hfits, hfree⟩ =>
        ⟨hstart, hneeds, hfits, by simpa [Option.all_eq_true] using hfree⟩⟩

/-! ### Frames -/

/-- What a call has saved, and where. -/
structure Frame where
  /-- Where the frame begins. -/
  start : Nat
  /-- The place for the result, where the arguments begin. -/
  result : Nat
  /-- The return address. -/
  back : Value
  /-- The base cells. -/
  lcl : Value
  arg : Value
  this : Value
  that : Value

namespace Frame

/-- The frame that a call pushes. -/
def ofCall (back : Value) (arguments : Int) (m : Memory) : Frame where
  start := (m.cell .sp).toNat
  result := (m.cell .sp).toNat - arguments.toNat
  back := back
  lcl := m.cell .lcl
  arg := m.cell .arg
  this := m.cell .this
  that := m.cell .that

/-- The values in the frame, the last one first. -/
def values (f : Frame) : List Value :=
  [f.that, f.this, f.arg, f.lcl, f.back]

end Frame

/-- Each frame begins behind the place for its result, which stands on the working stack of the
activation that the frame returns to; and it has saved the base cells of that activation. -/
def Chained (f : Frame) : List Frame → Prop
  | [] => 256 ≤ f.result ∧ f.result ≤ f.start
  | g :: fs => g.start + 5 ≤ f.result ∧ f.result ≤ f.start ∧
      f.lcl = BitVec.ofNat 16 (g.start + 5) ∧ f.arg = BitVec.ofNat 16 g.result ∧ Chained g fs

/-- The frames of the activations under way, the innermost first, stand in the memory. -/
structure Live (f : Frame) (fs : List Frame) (m : Memory) : Prop where
  /-- The working stack begins behind the first frame. -/
  lcl_eq : m.cell .lcl = BitVec.ofNat 16 (f.start + 5)
  /-- The arguments begin where the result will be. -/
  arg_eq : m.cell .arg = BitVec.ofNat 16 f.result
  /-- `SP` lies on the working stack. -/
  base_le : f.start + 5 ≤ (m.cell .sp).toNat
  fits : (m.cell .sp).toNat ≤ 0x8000
  /-- The frames are as they have been pushed. -/
  saved : ∀ g ∈ f :: fs, HoldsList g.start m g.values
  /-- Each frame returns to the next one. -/
  chained : Chained f fs

variable {f g : Frame} {fs : List Frame} {m m' : Memory} {x : Value}

theorem toNat_ofNat_of_lt {n : Nat} (h : n < 0x10000) : (BitVec.ofNat 16 n).toNat = n := by
  rw [BitVec.toNat_ofNat, Nat.mod_eq_of_lt h]

theorem Chained.result_le (h : Chained f fs) : 256 ≤ f.result ∧ f.result ≤ f.start := by
  induction fs generalizing f with
  | nil => exact h
  | cons g fs ih =>
    have hg := ih h.2.2.2.2
    exact ⟨by have := h.1; omega, h.2.1⟩

/-- All frames lie below the place for the result of the first one. -/
theorem Chained.start_le (h : Chained f fs) :
    ∀ g ∈ fs, 256 ≤ g.start ∧ g.start + 5 ≤ f.result := by
  induction fs generalizing f with
  | nil => exact fun _ hg => absurd hg List.not_mem_nil
  | cons g fs ih =>
    obtain ⟨hstart, -, -, -, hrest⟩ := h
    have hresult := hrest.result_le
    intro g' hg'
    rcases List.mem_cons.1 hg' with rfl | hg'
    · exact ⟨by omega, hstart⟩
    · have hbelow := ih hrest g' hg'
      exact ⟨hbelow.1, by omega⟩

theorem Live.start_le (h : Live f fs m) : ∀ g ∈ f :: fs, 256 ≤ g.start ∧ g.start ≤ f.start := by
  have hresult := h.chained.result_le
  intro g hg
  rcases List.mem_cons.1 hg with rfl | hg
  · exact ⟨by omega, Nat.le_refl _⟩
  · have hbelow := h.chained.start_le g hg
    exact ⟨hbelow.1, by omega⟩

theorem Live.toNat_lcl (h : Live f fs m) : (m.cell .lcl).toNat = f.start + 5 := by
  have hbase := h.base_le
  have hfits := h.fits
  rw [h.lcl_eq, toNat_ofNat_of_lt (by omega)]

/-- The frames stay live if nothing changes that belongs to them. -/
theorem Live.congr (h : Live f fs m) (hlcl : m'.cell .lcl = m.cell .lcl)
    (harg : m'.cell .arg = m.cell .arg) (hbase : f.start + 5 ≤ (m'.cell .sp).toNat)
    (hfits : (m'.cell .sp).toNat ≤ 0x8000)
    (hframes : ∀ g ∈ f :: fs, ∀ x, IsFrameCell g.start x → m' x = m x) : Live f fs m' := by
  refine ⟨hlcl.trans h.lcl_eq, harg.trans h.arg_eq, hbase, hfits, fun g hg => ?_, h.chained⟩
  refine (h.saved g hg).congr fun j hj => hframes g hg _ ?_
  have hj : j < 5 := hj
  have hstart := (h.start_le g hg).2
  rw [IsFrameCell, toNat_ofNat_of_lt (by omega)]
  omega

/-! ### Instructions within an activation -/

theorem toNat_sub_one (h : 0 < x.toNat) : (x - 1).toNat = x.toNat - 1 := by
  bv_omega

theorem slot_ne_of_le (h : 256 ≤ x.toNat) (c : Cell) : c.slot ≠ x := by
  have hc : c.slot.toNat < 256 := by cases c <;> decide
  rintro rfl
  omega

/-- `SP` stays above an address, below which nothing changes but `SP` itself and `R13`. -/
structure StaysAbove (base : Nat) (m m' : Memory) : Prop where
  base_le : base ≤ (m'.cell .sp).toNat
  fits : (m'.cell .sp).toNat ≤ 0x8000
  below : ∀ x, IsClear base x → m' x = m x

theorem IsClear.mono {base base' : Nat} (h : IsClear base x) (hle : base ≤ base') :
    IsClear base' x :=
  ⟨Nat.lt_of_lt_of_le h.1 hle, h.2⟩

section StaysAbove

variable {base : Nat}

theorem StaysAbove.of_holds {xs : List Value} (h : Holds (m.cell .sp).toNat xs m m')
    (hbase : base ≤ (m.cell .sp).toNat) (hfits : (m.cell .sp).toNat + xs.length ≤ 0x8000) :
    StaysAbove base m m' := by
  have hsp : (m'.cell .sp).toNat = (m.cell .sp).toNat + xs.length := by
    rw [h.sp_eq, toNat_ofNat_of_lt (by omega)]
  exact ⟨by omega, by omega, fun x hx => h.below x (hx.mono hbase)⟩

theorem StaysAbove.drop (hbase : base + 1 ≤ (m.cell .sp).toNat)
    (hfits : (m.cell .sp).toNat ≤ 0x8000) : StaysAbove base m m.drop := by
  have hsp : (m.drop.cell .sp).toNat = (m.cell .sp).toNat - 1 := by
    rw [Memory.cell_drop_sp, toNat_sub_one (by omega)]
  exact ⟨by omega, by omega, fun x hx => Memory.setCell_of_ne hx.2.1 _⟩

/-- A cell of the working stack is written. -/
theorem StaysAbove.set (h : StaysAbove base m m') (hlow : 256 ≤ base) (hx : base ≤ x.toNat)
    (value : Value) : StaysAbove base m (m'.set x value) := by
  have hsp : (m'.set x value).cell .sp = m'.cell .sp :=
    Memory.cell_set_of_ne (slot_ne_of_le (by omega) .sp) value
  refine ⟨by rw [hsp]; exact h.base_le, by rw [hsp]; exact h.fits, fun y hy => ?_⟩
  have hne : y ≠ x := by
    rintro rfl
    exact absurd hy.1 (by omega)
  rw [Memory.set_of_ne hne, h.below y hy]

theorem StaysAbove.apply {op : Operation} (hlow : 256 ≤ base)
    (hbase : base + (Instruction.operation op).operands ≤ (m.cell .sp).toNat)
    (hfits : (m.cell .sp).toNat ≤ 0x8000) : StaysAbove base m (op.apply m) := by
  rw [Instruction.operands] at hbase
  unfold Operation.apply
  split at hbase
  · rename_i hunary
    rw [if_pos hunary]
    have hself : StaysAbove base m m := ⟨by omega, hfits, fun _ _ => rfl⟩
    exact hself.set hlow (by rw [toNat_sub_one] <;> omega) _
  · rename_i hbinary
    rw [if_neg hbinary]
    have htop : (m.cell .sp - 1).toNat = (m.cell .sp).toNat - 1 := toNat_sub_one (by omega)
    have hdrop : StaysAbove base m m.drop := .drop (by omega) hfits
    refine hdrop.set hlow ?_ _
    rw [Memory.cell_drop_sp, toNat_sub_one (by omega), htop]
    omega

end StaysAbove

theorem Live.of_staysAbove (h : Live f fs m) (hstays : StaysAbove (f.start + 5) m m') :
    Live f fs m' := by
  have hlow : ∀ g ∈ f :: fs, 256 ≤ g.start ∧ g.start ≤ f.start := h.start_le
  have hfirst := (hlow f List.mem_cons_self).1
  refine h.congr ?_ ?_ hstays.base_le hstays.fits fun g hg x hx => hstays.below x ?_
  · exact hstays.below _ ⟨by have : Cell.lcl.slot.toNat = 1 := rfl; omega, by decide, by decide⟩
  · exact hstays.below _ ⟨by have : Cell.arg.slot.toNat = 2 := rfl; omega, by decide, by decide⟩
  · obtain ⟨hlo, hhi⟩ := hlow g hg
    obtain ⟨hx, hx'⟩ := hx
    exact ⟨by omega, (slot_ne_of_le (by omega) .sp).symm, (slot_ne_of_le (by omega) .r13).symm⟩

/-- A pop changes nothing but its target, `SP` and `R13`. -/
theorem popTo_of_ne {target : Value} (hsp : x ≠ Cell.sp.slot) (hr13 : x ≠ Cell.r13.slot)
    (htarget : x ≠ target) : popTo .inMemory target m x = m x := by
  have hkept : (m.setCell .r13 target).drop.cell .r13 = target := by
    rw [Memory.drop, Memory.cell_setCell_of_ne (by decide), Memory.cell_setCell_self]
  simp only [popTo, Scratch.keep, Scratch.kept, hkept]
  rw [Memory.set_of_ne htarget, Memory.drop, Memory.setCell_of_ne hsp, Memory.setCell_of_ne hr13]

theorem cell_sp_popTo {target : Value} (htarget : target ≠ Cell.sp.slot) :
    (popTo .inMemory target m).cell .sp = m.cell .sp - 1 := by
  have hkept : (m.setCell .r13 target).drop.cell .r13 = target := by
    rw [Memory.drop, Memory.cell_setCell_of_ne (by decide), Memory.cell_setCell_self]
  simp only [popTo, Scratch.keep, Scratch.kept, hkept]
  rw [Memory.cell_set_of_ne htarget.symm, Memory.cell_drop_sp,
    Memory.cell_setCell_of_ne (by decide)]

/-- A pop leaves the frames alone if its target does. -/
theorem Live.popTo {target : Value} (h : Live f fs m) (hbase : f.start + 6 ≤ (m.cell .sp).toNat)
    (hsp : target ≠ Cell.sp.slot) (hlcl : target ≠ Cell.lcl.slot) (harg : target ≠ Cell.arg.slot)
    (hframes : ∀ g ∈ f :: fs, ¬ IsFrameCell g.start target) :
    Live f fs (VM.popTo .inMemory target m) := by
  have hfits := h.fits
  have hplace : ((VM.popTo .inMemory target m).cell .sp).toNat = (m.cell .sp).toNat - 1 := by
    rw [cell_sp_popTo hsp, toNat_sub_one (by omega)]
  refine h.congr ?_ ?_ (by omega) (by omega) fun g hg x hx => ?_
  · exact popTo_of_ne (by decide) (by decide) hlcl.symm
  · exact popTo_of_ne (by decide) (by decide) harg.symm
  · have hlow := (h.start_le g hg).1
    have hx256 : 256 ≤ x.toNat := Nat.le_trans hlow hx.1
    refine popTo_of_ne (slot_ne_of_le hx256 .sp).symm (slot_ne_of_le hx256 .r13).symm ?_
    rintro rfl
    exact hframes g hg hx

/-- Instructions other than calls and returns leave the frames alone. -/
theorem Live.local_step {p : Placed} {address : String → Nat} {starts : List Nat}
    (h : Live f fs m) (hstarts : starts = (f :: fs).map Frame.start)
    (hkeeps : KeepsDiscipline Instruction.operands address starts p m)
    (hcall : ∀ name arguments, p.instruction ≠ .call name arguments) (hret : p.instruction ≠ .ret)
    (next : Nat) : Live f fs (p.instruction.step .inMemory address p.scope next m).2 := by
  obtain ⟨s, i⟩ := p
  have hlow : 256 ≤ f.start := (h.start_le f List.mem_cons_self).1
  have hneeds := hkeeps.needs_le
  have hfits := hkeeps.fits
  rw [h.toNat_lcl] at hneeds
  have hholds := Holds.self m
  -- all but pops change the working stack alone; a pop may go anywhere but to the frames
  cases i with
  | start => exact absurd rfl hkeeps.ne_start
  | call name arguments => exact absurd rfl (hcall name arguments)
  | ret => exact absurd rfl hret
  | label name => exact h
  | goto name => exact h
  | operation op => exact h.of_staysAbove (.apply (by omega) hneeds hfits)
  | ifGoto name => exact h.of_staysAbove (.drop hneeds hfits)
  | push segment index =>
    exact h.of_staysAbove (.of_holds (hholds.push (by omega) hfits _) (by omega) hfits)
  | function name locals =>
    have hzeros := hholds.pushZeros (n := locals.toNat) (by omega) hfits
    refine h.of_staysAbove (.of_holds hzeros (by omega) ?_)
    rwa [List.append_nil, List.length_replicate]
  | pop segment index =>
    obtain ⟨hsp, hlcl, harg, hframes⟩ := hkeeps.target_free _ rfl
    refine h.popTo hneeds hsp hlcl harg fun g hg => hframes g.start ?_
    rw [hstarts]
    exact List.mem_map_of_mem hg

/-! ### Calls -/

/-- The content of a base cell is pushed. -/
theorem Holds.pushCell {base : Nat} {xs : List Value} (h : Holds base xs m m') (hbase : 256 ≤ base)
    (hfits : base + xs.length + 1 ≤ 0x8000) (c : Cell) (hsp : c ≠ .sp) (hr13 : c ≠ .r13) :
    Holds base (m.cell c :: xs) m (m'.push (m'.cell c)) := by
  rw [h.cell hbase hsp hr13]
  exact h.push hbase hfits _

/-- A frame stands on the stack once it has been pushed. -/
theorem holds_pushSaved (back : Value) (arguments : Int) (hlow : 256 ≤ (m.cell .sp).toNat)
    (hfits : (m.cell .sp).toNat + 5 ≤ 0x8000) :
    Holds (m.cell .sp).toNat (Frame.ofCall back arguments m).values m (pushSaved back m) := by
  have hback := (Holds.self m).push hlow (Nat.le_trans (by simp) hfits) back
  have hlcl := hback.pushCell hlow (Nat.le_trans (by simp) hfits) .lcl (by decide) (by decide)
  have harg := hlcl.pushCell hlow (Nat.le_trans (by simp) hfits) .arg (by decide) (by decide)
  have hthis := harg.pushCell hlow (Nat.le_trans (by simp) hfits) .this (by decide) (by decide)
  exact hthis.pushCell hlow (Nat.le_trans (by simp) hfits) .that (by decide) (by decide)

theorem ofNat_sub_ofInt {n : Nat} {arguments : Int} (harguments : 0 ≤ arguments)
    (hle : arguments.toNat ≤ n) :
    BitVec.ofNat 16 (n + 5) - BitVec.ofInt 16 (frameCells + arguments) =
      BitVec.ofNat 16 (n - arguments.toNat) := by
  obtain ⟨k, rfl⟩ := Int.eq_ofNat_of_zero_le harguments
  obtain ⟨d, rfl⟩ := Nat.exists_eq_add_of_le (show k ≤ n from hle)
  have hplace : k + d + 5 = d + (5 + k) := by omega
  have hint : frameCells + (k : Int) = ((5 + k : Nat) : Int) := by
    rw [frameCells]
    omega
  rw [hint, BitVec.ofInt_natCast, hplace, BitVec.ofNat_add d, BitVec.add_sub_cancel,
    Int.toNat_natCast, Nat.add_sub_cancel_left]

/-- A call pushes a frame on top of those that stand there. -/
theorem live_pushFrame {back : Value} {arguments : Int} (harguments : 0 ≤ arguments)
    (hchained : Chained (Frame.ofCall back arguments m) fs)
    (hsaved : ∀ g ∈ fs, HoldsList g.start m g.values) (hfits : (m.cell .sp).toNat + 5 ≤ 0x8000) :
    Live (Frame.ofCall back arguments m) fs (pushFrame back arguments m) := by
  have hresult : 256 ≤ (m.cell .sp).toNat - arguments.toNat := hchained.result_le.1
  have hlow : 256 ≤ (m.cell .sp).toNat := by omega
  have hholds := holds_pushSaved back arguments hlow hfits
  have hsp : (pushSaved back m).cell .sp = BitVec.ofNat 16 ((m.cell .sp).toNat + 5) := hholds.sp_eq
  -- the cells of the stack stay as they are while the base cells change
  have henter {x : Value} (hx : 256 ≤ x.toNat) :
      pushFrame back arguments m x = pushSaved back m x := by
    rw [pushFrame, enter, Memory.setCell_of_ne (slot_ne_of_le hx .lcl).symm,
      Memory.setCell_of_ne (slot_ne_of_le hx .arg).symm]
  have hcell (c : Cell) (hlcl : c ≠ .lcl) (harg : c ≠ .arg) :
      (pushFrame back arguments m).cell c = (pushSaved back m).cell c := by
    rw [pushFrame, enter, Memory.cell_setCell_of_ne hlcl, Memory.cell_setCell_of_ne harg]
  have hplace (start j : Nat) (hstart : 256 ≤ start) (hlt : start + j < 0x10000) :
      256 ≤ (BitVec.ofNat 16 (start + j)).toNat := by
    rw [toNat_ofNat_of_lt hlt]
    omega
  have hspFrame : ((pushFrame back arguments m).cell .sp).toNat = (m.cell .sp).toNat + 5 := by
    rw [hcell .sp (by decide) (by decide), hsp, toNat_ofNat_of_lt (by omega)]
  refine ⟨?_, ?_, Nat.le_of_eq hspFrame.symm, by omega, fun g hg => ?_, hchained⟩
  · rw [pushFrame, enter, Memory.cell_setCell_self, Memory.cell_setCell_of_ne (by decide), hsp]
    rfl
  · rw [pushFrame, enter, Memory.cell_setCell_of_ne (by decide), Memory.cell_setCell_self, hsp,
      ofNat_sub_ofInt harguments (by omega)]
    rfl
  · rcases List.mem_cons.1 hg with rfl | hg
    · refine hholds.list.congr fun j hj => henter (hplace _ j hlow ?_)
      have hj : j < 5 := hj
      omega
    · -- the frames below are out of reach of the pushes
      obtain ⟨hstart, hbelow⟩ := hchained.start_le g hg
      have hbelow : g.start + 5 ≤ (m.cell .sp).toNat - arguments.toNat := hbelow
      refine (hsaved g hg).congr fun j hj => ?_
      have hj : j < 5 := hj
      have hx := hplace g.start j hstart (by omega)
      rw [henter hx, hholds.below]
      refine ⟨?_, (slot_ne_of_le hx .sp).symm, (slot_ne_of_le hx .r13).symm⟩
      rw [toNat_ofNat_of_lt (by omega)]
      omega

/-- A call within an activation whose arguments stand on its working stack. -/
theorem Live.call (h : Live f fs m) (back : Value) {arguments : Int} (harguments : 0 ≤ arguments)
    (hneeds : f.start + 5 + arguments.toNat ≤ (m.cell .sp).toNat)
    (hfits : (m.cell .sp).toNat + 5 ≤ 0x8000) :
    Live (Frame.ofCall back arguments m) (f :: fs) (pushFrame back arguments m) := by
  refine live_pushFrame harguments ⟨?_, Nat.sub_le _ _, h.lcl_eq, h.arg_eq, h.chained⟩ h.saved hfits
  change f.start + 5 ≤ (m.cell .sp).toNat - arguments.toNat
  omega

/-! ### Returns -/

/-- The memory while a frame is popped: the scratch cells hold the end of the frame and the return
address, and the cells of the stack are those of another memory. -/
structure Unwinding (frame back : Value) (m m' : Memory) : Prop where
  frame_eq : m'.cell .r13 = frame
  back_eq : m'.cell .r14 = back
  high : ∀ x, 256 ≤ x.toNat → m' x = m x

section Unwinding

variable {frame back : Value}

theorem Unwinding.setCell (h : Unwinding frame back m m') (c : Cell) (hr13 : c ≠ .r13)
    (hr14 : c ≠ .r14) (value : Value) : Unwinding frame back m (m'.setCell c value) where
  frame_eq := by rw [Memory.cell_setCell_of_ne hr13.symm, h.frame_eq]
  back_eq := by rw [Memory.cell_setCell_of_ne hr14.symm, h.back_eq]
  high x hx := by rw [Memory.setCell_of_ne (slot_ne_of_le hx c).symm, h.high x hx]

theorem Unwinding.set (h : Unwinding frame back m m') (hx : 256 ≤ x.toNat) (value : Value) :
    Unwinding frame back (m.set x value) (m'.set x value) where
  frame_eq := by rw [Memory.cell_set_of_ne (slot_ne_of_le hx .r13), h.frame_eq]
  back_eq := by rw [Memory.cell_set_of_ne (slot_ne_of_le hx .r14), h.back_eq]
  high y hy := by rw [Memory.set_apply, Memory.set_apply, h.high y hy]

end Unwinding

/-- A value is read from the frame. -/
theorem Unwinding.read {frame back offset value : Value} (h : Unwinding frame back m m')
    (hplace : 256 ≤ (frame - offset).toNat ∧ m (frame - offset) = value) :
    m' (m'.cell .r13 - offset) = value := by
  rw [h.frame_eq, h.high _ hplace.1, hplace.2]

/-- The base cells are restored from a frame that the memory has. -/
theorem Unwinding.restoreCells {frame back this that lcl arg : Value}
    (h : Unwinding frame back m m')
    (hthat : 256 ≤ (frame - 1).toNat ∧ m (frame - 1) = that)
    (hthis : 256 ≤ (frame - 2).toNat ∧ m (frame - 2) = this)
    (harg : 256 ≤ (frame - 3).toNat ∧ m (frame - 3) = arg)
    (hlcl : 256 ≤ (frame - 4).toNat ∧ m (frame - 4) = lcl) :
    VM.restoreCells .inMemory frame m' =
      (((m'.setCell .that that).setCell .this this).setCell .arg arg).setCell .lcl lcl := by
  have h₁ := h.setCell .that (by decide) (by decide) that
  have h₂ := h₁.setCell .this (by decide) (by decide) this
  have h₃ := h₂.setCell .arg (by decide) (by decide) arg
  simp only [VM.restoreCells, Scratch.kept, h.read hthat, h₁.read hthis, h₂.read harg, h₃.read hlcl]

/-- The top of the stack is put in the place of the first argument. -/
theorem Unwinding.putResult {frame back result : Value} (h : Unwinding frame back m m')
    (hsp : m'.cell .sp = m.cell .sp) (harg : m'.cell .arg = result) (hlow : 256 ≤ result.toNat)
    (htop : 256 < (m.cell .sp).toNat) :
    Unwinding frame back (m.set result (m (m.cell .sp - 1))) (putResult m') ∧
      (VM.putResult m').cell .sp = result + 1 := by
  have hdrop := h.setCell .sp (by decide) (by decide) (m'.cell .sp - 1)
  have hdropped : m'.drop.dropped = m (m.cell .sp - 1) := by
    have hplace : (m.cell .sp - 1).toNat = (m.cell .sp).toNat - 1 := toNat_sub_one (by omega)
    rw [Memory.dropped, Memory.cell_drop_sp, hsp]
    exact hdrop.high _ (by omega)
  have hplace : m'.drop.cell .arg = result := by
    rw [Memory.drop, Memory.cell_setCell_of_ne (by decide), harg]
  have hset := hdrop.set hlow (m (m.cell .sp - 1))
  rw [VM.putResult, hdropped, hplace]
  refine ⟨hset.setCell .sp (by decide) (by decide) _, ?_⟩
  rw [Memory.cell_setCell_self, Memory.cell_set_of_ne (slot_ne_of_le hlow .arg), hplace]

/-- What a return makes of a memory: it goes back, the result stands where the arguments began,
right below the end of the stack, and the base cells are those that have been saved. -/
structure Returned (f : Frame) (m : Memory) (back : Value) (m' : Memory) : Prop where
  back_eq : back = f.back
  sp_eq : m'.cell .sp = BitVec.ofNat 16 (f.result + 1)
  result_eq : m' (BitVec.ofNat 16 f.result) = m (m.cell .sp - 1)
  lcl_eq : m'.cell .lcl = f.lcl
  arg_eq : m'.cell .arg = f.arg
  this_eq : m'.cell .this = f.this
  that_eq : m'.cell .that = f.that
  /-- The rest of the stack is as before. -/
  high : ∀ x, 256 ≤ x.toNat → x ≠ BitVec.ofNat 16 f.result → m' x = m x

/-- The cells of the first frame, counted from its end. -/
theorem Live.lcl_sub (h : Live f fs m) {j k : Nat} (hjk : j + k = 5) :
    m.cell .lcl - BitVec.ofNat 16 k = BitVec.ofNat 16 (f.start + j) := by
  rw [h.lcl_eq, ← hjk, ← Nat.add_assoc, BitVec.ofNat_add (f.start + j), BitVec.add_sub_cancel]

/-- The return address and the end of the frame are put into the scratch cells, before the result
may overwrite the return address. -/
theorem Live.unwinding (h : Live f fs m) :
    (m.setCell .r13 (m.cell .lcl)) (m.cell .lcl - 5) = f.back ∧
      Unwinding (m.cell .lcl) f.back m ((m.setCell .r13 (m.cell .lcl)).setCell .r14 f.back) := by
  have hlow : 256 ≤ f.start := (h.start_le f List.mem_cons_self).1
  have hbase := h.base_le
  have hfits := h.fits
  have hplace : m.cell .lcl - 5 = BitVec.ofNat 16 (f.start + 0) := h.lcl_sub rfl
  refine ⟨?_, ?_, Memory.cell_setCell_self _ _ _, fun x hx => ?_⟩
  · rw [hplace, Memory.setCell_of_ne (ofNat_ne hlow (by omega) .r13)]
    exact (h.saved f List.mem_cons_self).2.2.2.2.1
  · rw [Memory.cell_setCell_of_ne (by decide), Memory.cell_setCell_self]
  · rw [Memory.setCell_of_ne (slot_ne_of_le hx .r14).symm,
      Memory.setCell_of_ne (slot_ne_of_le hx .r13).symm]

/-- The result is put below the base cells that the frame has saved. -/
theorem Live.set_result (h : Live f fs m) (value : Value) {v : Value} {j k : Nat} (hjk : j + k = 5)
    (hj : 1 ≤ j) (hv : m (BitVec.ofNat 16 (f.start + j)) = v) :
    256 ≤ (m.cell .lcl - BitVec.ofNat 16 k).toNat ∧
      m.set (BitVec.ofNat 16 f.result) value (m.cell .lcl - BitVec.ofNat 16 k) = v := by
  obtain ⟨hresult, hle⟩ := h.chained.result_le
  have hbase := h.base_le
  have hfits := h.fits
  have hplace : (BitVec.ofNat 16 (f.start + j)).toNat = f.start + j := toNat_ofNat_of_lt (by omega)
  rw [h.lcl_sub hjk]
  refine ⟨by omega, ?_⟩
  rw [Memory.set_of_ne, hv]
  intro heq
  have hnat := congrArg BitVec.toNat heq
  rw [hplace, toNat_ofNat_of_lt (by omega)] at hnat
  omega

/-- A return pops the first frame. -/
theorem Live.returned (h : Live f fs m) (htop : f.start + 6 ≤ (m.cell .sp).toNat) :
    Returned f m (popFrame .inMemory m).1 (popFrame .inMemory m).2 := by
  obtain ⟨hresult, hle⟩ := h.chained.result_le
  have hfits := h.fits
  obtain ⟨hthat, hthis, harg, hlcl, -⟩ := h.saved f List.mem_cons_self
  have hplace : 256 ≤ (BitVec.ofNat 16 f.result).toNat := by
    rw [toNat_ofNat_of_lt (by omega)]
    exact hresult
  obtain ⟨hread, hkept⟩ := h.unwinding
  obtain ⟨hput, hsp⟩ := hkept.putResult
    (by rw [Memory.cell_setCell_of_ne (by decide), Memory.cell_setCell_of_ne (by decide)])
    (by rw [Memory.cell_setCell_of_ne (by decide), Memory.cell_setCell_of_ne (by decide), h.arg_eq])
    hplace (by omega)
  have hsaved {v : Value} (j k : Nat) (hjk : j + k = 5) (hj : 1 ≤ j)
      (hv : m (BitVec.ofNat 16 (f.start + j)) = v) :=
    h.set_result (m (m.cell .sp - 1)) hjk hj hv
  have hrestore := hput.restoreCells (hsaved 4 1 rfl (by decide) hthat)
    (hsaved 3 2 rfl (by decide) hthis) (hsaved 2 3 rfl (by decide) harg)
    (hsaved 1 4 rfl (by decide) hlcl)
  simp only [popFrame, Scratch.keep, Scratch.kept, hread, hrestore]
  -- the base cells are written one after the other, each of them once
  have hfinal := (((hput.setCell .that (by decide) (by decide) f.that).setCell .this (by decide)
    (by decide) f.this).setCell .arg (by decide) (by decide) f.arg).setCell .lcl (by decide)
    (by decide) f.lcl
  refine ⟨hfinal.back_eq, ?_, ?_, ?_, ?_, ?_, ?_, fun x hx hne => ?_⟩
  · simp only [Memory.cell_setCell_of_ne, ne_eq, reduceCtorEq, not_false_eq_true, hsp]
    rw [BitVec.ofNat_add f.result 1]
    rfl
  · rw [hfinal.high _ hplace, Memory.set_self]
  · exact Memory.cell_setCell_self _ _ _
  · rw [Memory.cell_setCell_of_ne (by decide), Memory.cell_setCell_self]
  · rw [Memory.cell_setCell_of_ne (by decide), Memory.cell_setCell_of_ne (by decide),
      Memory.cell_setCell_self]
  · rw [Memory.cell_setCell_of_ne (by decide), Memory.cell_setCell_of_ne (by decide),
      Memory.cell_setCell_of_ne (by decide), Memory.cell_setCell_self]
  · rw [hfinal.high x hx, Memory.set_of_ne hne]

/-- A return within the activation that the frame below belongs to. -/
theorem Live.ret (h : Live f (g :: fs) m) (htop : f.start + 6 ≤ (m.cell .sp).toNat) :
    Live g fs (popFrame .inMemory m).2 := by
  obtain ⟨hstart, hle, hlcl, harg, hrest⟩ := h.chained
  have hfits := h.fits
  have hreturned := h.returned htop
  have hsp : ((popFrame .inMemory m).2.cell .sp).toNat = f.result + 1 := by
    rw [hreturned.sp_eq, toNat_ofNat_of_lt (by omega)]
  refine ⟨hreturned.lcl_eq.trans hlcl, hreturned.arg_eq.trans harg, by omega, by omega,
    fun g' hg' => ?_, hrest⟩
  -- the result is put above all frames that remain
  obtain ⟨hlow, hbelow⟩ := h.chained.start_le g' hg'
  refine (h.saved g' (List.mem_cons_of_mem _ hg')).congr fun j hj => ?_
  have hj : j < 5 := hj
  have hplace : (BitVec.ofNat 16 (g'.start + j)).toNat = g'.start + j :=
    toNat_ofNat_of_lt (by omega)
  refine hreturned.high _ (by omega) fun heq => ?_
  have hnat := congrArg BitVec.toNat heq
  rw [hplace, toNat_ofNat_of_lt (by omega)] at hnat
  omega

end HackToolchain.VM
