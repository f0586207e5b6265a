import HackToolchain.Proofs.VM.Simulation

/-!
# Straight code works on a list

Pushes, pops and operations, seen from outside, work on a list of values and on the cells of the
segments.  `listStep` is such a machine, whose list has its top in front; `ListRun` is a run in
which the list never underflows and stays below the end of the address space, and the cells in use
stay clear of the stack, of `SP` and of `R13`.

* `Holds.step`: what an instruction does to the list shows in the memory;
* `computer_refines_list`: so does what the code of a list of instructions does, wherever it stands
  in a program.
-/

namespace HackToolchain.VM

open Asm Machine Code

/-! ### The machine -/

/-- An instruction as it works on a list of values, the top in front, and on a memory; none if the
list underflows or the instruction is no push, pop or operation. -/
def listStep (address : String → Nat) (p : Placed) (xs : List Value) (m : Memory) :
    Option (List Value × Memory) :=
  match p.instruction, xs with
  | .push segment index, xs => some (segment.value address p.scope index m :: xs, m)
  | .pop segment index, x :: xs => some (xs, m.set (segment.location address p.scope index m) x)
  | .operation op, y :: xs =>
    if op.isUnary then some (op.result y y :: xs, m)
    else
      match xs with
      | x :: xs => some (op.result x y :: xs, m)
      | [] => none
  | _, _ => none

/-- The cell of a segment that an instruction addresses. -/
def segmentCell? (address : String → Nat) (p : Placed) (m : Memory) : Option Value :=
  match p.instruction with
  | .push .constant _ => none
  | .push segment index | .pop segment index =>
    some (segment.location address p.scope index m)
  | _ => none

/-- The cell lies below the stack and is neither `SP` nor `R13`. -/
def IsClear (base : Nat) (x : Value) : Prop :=
  x.toNat < base ∧ x ≠ Cell.sp.slot ∧ x ≠ Cell.r13.slot

/-- A run on a list and a memory, the list standing at `base`. -/
inductive ListRun (address : String → Nat) (base : Nat) :
    List Placed → List Value → Memory → List Value → Memory → Prop where
  /-- No instruction. -/
  | nil {xs : List Value} {m : Memory} : ListRun address base [] xs m xs m
  /-- An instruction, and a run. -/
  | cons {p : Placed} {ps : List Placed} {xs ys zs : List Value} {m m' m'' : Memory}
      (hstep : listStep address p xs m = some (ys, m'))
      (hclear : ∀ x ∈ segmentCell? address p m, IsClear base x)
      (hfits : base + ys.length ≤ 0x8000)
      (hrest : ListRun address base ps ys m' zs m'') : ListRun address base (p :: ps) xs m zs m''

/-- The list never reaches past the end of the stack. -/
theorem ListRun.length_le {address : String → Nat} {base : Nat} {ps : List Placed}
    {xs ys : List Value} {m m' : Memory} (h : ListRun address base ps xs m ys m') :
    base + ys.length ≤ max (base + xs.length) 0x8000 := by
  induction h with
  | nil => exact Nat.le_max_left _ _
  | cons _ _ hfits _ ih => omega

/-! ### Lists in the memory -/

/-- The memory has a list of values from `base` on, its last value first. -/
def HoldsList (base : Nat) (mem : Memory) : List Value → Prop
  | [] => True
  | x :: xs => mem (BitVec.ofNat 16 (base + xs.length)) = x ∧ HoldsList base mem xs

theorem HoldsList.congr {base : Nat} {mem mem' : Memory} {xs : List Value}
    (h : HoldsList base mem xs)
    (heq : ∀ j < xs.length, mem' (BitVec.ofNat 16 (base + j)) = mem (BitVec.ofNat 16 (base + j))) :
    HoldsList base mem' xs := by
  induction xs with
  | nil => trivial
  | cons x xs ih =>
    refine ⟨?_, ih h.2 fun j hj => heq j (Nat.lt_succ_of_lt hj)⟩
    rw [heq _ (Nat.lt_succ_self _), h.1]

theorem HoldsList.getElem? {base : Nat} {mem : Memory} {xs : List Value}
    (h : HoldsList base mem xs) (j : Nat) (hj : j < xs.length) :
    xs.reverse[j]? = some (mem (BitVec.ofNat 16 (base + j))) := by
  induction xs with
  | nil => cases hj
  | cons x xs ih =>
    rw [List.reverse_cons]
    by_cases hlast : j = xs.length
    · subst hlast
      rw [← List.length_reverse, List.getElem?_concat_length, List.length_reverse, h.1]
    · have hlt : j < xs.length := by
        rw [List.length_cons] at hj
        omega
      rw [List.getElem?_append_left (by simpa using hlt), ih h.2 hlt]

/-- The memory of the computer shows a list and a memory. -/
structure Holds (base : Nat) (xs : List Value) (m mem : Memory) : Prop where
  /-- The stack pointer points behind the list. -/
  sp_eq : mem.cell .sp = BitVec.ofNat 16 (base + xs.length)
  /-- The list stands on the stack. -/
  list : HoldsList base mem xs
  /-- The cells below the stack are the same. -/
  below : ∀ x, IsClear base x → mem x = m x

/-- Every memory shows the empty list where its stack ends. -/
theorem Holds.self (m : Memory) : Holds (m.cell .sp).toNat [] m m := by
  refine ⟨?_, trivial, fun _ _ => rfl⟩
  rw [List.length_nil, Nat.add_zero, BitVec.ofNat_toNat, BitVec.setWidth_eq]

section Steps

variable {base : Nat} {xs : List Value} {x y : Value} {m mem : Memory}

theorem ofNat_ne {j : Nat} (hbase : 256 ≤ base) (hj : base + j < 0x10000) (c : Cell) :
    BitVec.ofNat 16 (base + j) ≠ c.slot := by
  intro h
  have hc : c.address < 256 := by cases c <;> decide
  have := congrArg BitVec.toNat h
  rw [Cell.slot, BitVec.toNat_ofNat, BitVec.toNat_ofNat] at this
  omega

theorem ofNat_ne_of_lt {i j : Nat} (hi : base + i < 0x10000) (hj : j < i) :
    BitVec.ofNat 16 (base + j) ≠ BitVec.ofNat 16 (base + i) := by
  intro h
  have := congrArg BitVec.toNat h
  rw [BitVec.toNat_ofNat, BitVec.toNat_ofNat] at this
  omega

theorem IsClear.ne_ofNat {j : Nat} (h : IsClear base x) (hj : base + j < 0x10000) :
    x ≠ BitVec.ofNat 16 (base + j) := by
  rintro rfl
  have := h.1
  rw [BitVec.toNat_ofNat] at this
  omega

theorem ofNat_succ_sub_one (n : Nat) : BitVec.ofNat 16 (n + 1) - 1 = BitVec.ofNat 16 n := by
  rw [BitVec.ofNat_add]
  exact BitVec.add_sub_cancel _ _

/-- A value is pushed. -/
theorem Holds.push (h : Holds base xs m mem) (hbase : 256 ≤ base)
    (hfits : base + xs.length + 1 ≤ 0x8000) (x : Value) :
    Holds base (x :: xs) m (mem.push x) := by
  have hplace : mem.cell .sp = BitVec.ofNat 16 (base + xs.length) := h.sp_eq
  have hsp : BitVec.ofNat 16 (base + xs.length) ≠ Cell.sp.slot := ofNat_ne hbase (by omega) .sp
  have hkeep {y : Value} (hy : y ≠ Cell.sp.slot) (hy' : y ≠ BitVec.ofNat 16 (base + xs.length)) :
      mem.push x y = mem y := by
    rw [Memory.push, Memory.setCell_of_ne hy, hplace, Memory.set_of_ne hy']
  refine ⟨?_, ⟨?_, h.list.congr fun j hj => ?_⟩, fun y hy => ?_⟩
  · rw [Memory.push, Memory.cell_setCell_self, hplace, Memory.cell_set_of_ne hsp.symm, hplace,
      List.length_cons, ← Nat.add_assoc, BitVec.ofNat_add (base + xs.length) 1]
    rfl
  · rw [Memory.push, Memory.setCell_of_ne hsp, hplace, Memory.set_self]
  · exact hkeep (ofNat_ne hbase (by omega) .sp) (ofNat_ne_of_lt (by omega) hj)
  · rw [hkeep hy.2.1 (hy.ne_ofNat (by omega)), h.below y hy]

/-- The place of the top. -/
theorem Holds.top_eq (h : Holds base (x :: xs) m mem) :
    mem.cell .sp - 1 = BitVec.ofNat 16 (base + xs.length) := by
  rw [h.sp_eq, List.length_cons, ← Nat.add_assoc, ofNat_succ_sub_one]

/-- Zeros are pushed. -/
theorem Holds.pushZeros (h : Holds base xs m mem) (hbase : 256 ≤ base) {n : Nat}
    (hfits : base + xs.length + n ≤ 0x8000) :
    Holds base (List.replicate n 0 ++ xs) m (pushZeros mem n) := by
  induction n generalizing xs mem with
  | zero => exact h
  | succ n ih =>
    have hpush := h.push hbase (by omega) 0
    have hzeros := ih hpush (by rw [List.length_cons]; omega)
    rwa [List.replicate_succ', List.append_assoc]

/-- The top is taken off. -/
theorem Holds.drop (h : Holds base (x :: xs) m mem) (hbase : 256 ≤ base)
    (hfits : base + xs.length + 1 ≤ 0x8000) :
    Holds base xs m mem.drop ∧ mem.drop.dropped = x := by
  have hsp : mem.drop.cell .sp = BitVec.ofNat 16 (base + xs.length) := by
    rw [Memory.cell_drop_sp, h.top_eq]
  have hkeep {y : Value} (hy : y ≠ Cell.sp.slot) : mem.drop y = mem y :=
    Memory.setCell_of_ne hy _
  refine ⟨⟨hsp, h.list.2.congr fun j hj => ?_, fun y hy => ?_⟩, ?_⟩
  · exact hkeep (ofNat_ne hbase (by omega) .sp)
  · rw [hkeep hy.2.1, h.below y hy]
  · rw [Memory.dropped, hsp, hkeep (ofNat_ne hbase (by omega) .sp), h.list.1]

/-- The value on top is replaced. -/
theorem Holds.replace (h : Holds base (x :: xs) m mem) (hbase : 256 ≤ base)
    (hfits : base + xs.length + 1 ≤ 0x8000) (y : Value) :
    Holds base (y :: xs) m (mem.set (mem.cell .sp - 1) y) := by
  rw [h.top_eq]
  refine ⟨?_, ⟨Memory.set_self _ _ _, h.list.2.congr fun j hj => ?_⟩, fun z hz => ?_⟩
  · rw [Memory.cell_set_of_ne (ofNat_ne hbase (by omega) .sp).symm, h.sp_eq]
    rfl
  · exact Memory.set_of_ne (ofNat_ne_of_lt (by omega) hj) _
  · rw [Memory.set_of_ne (hz.ne_ofNat (by omega)), h.below z hz]

/-- A cell below the stack is written, in both memories. -/
theorem Holds.set (h : Holds base xs m mem) (hfits : base + xs.length ≤ 0x8000)
    (hx : IsClear base x) (y : Value) :
    Holds base xs (m.set x y) (mem.set x y) := by
  refine ⟨?_, h.list.congr fun j hj => ?_, fun z hz => ?_⟩
  · rw [Memory.cell_set_of_ne hx.2.1.symm, h.sp_eq]
  · exact Memory.set_of_ne (hx.ne_ofNat (by omega)).symm _
  · rw [Memory.set_apply, Memory.set_apply, h.below z hz]

/-- The cell that remembers the target of a pop is written. -/
theorem Holds.setCell_r13 (h : Holds base xs m mem) (hbase : 256 ≤ base)
    (hfits : base + xs.length ≤ 0x8000) (y : Value) : Holds base xs m (mem.setCell .r13 y) := by
  refine ⟨?_, h.list.congr fun j hj => ?_, fun z hz => ?_⟩
  · rw [Memory.cell_setCell_of_ne (by decide), h.sp_eq]
  · exact Memory.setCell_of_ne (ofNat_ne hbase (by omega) .r13) _
  · rw [Memory.setCell_of_ne hz.2.2, h.below z hz]

/-- The base cells are cells below the stack. -/
theorem Holds.cell (h : Holds base xs m mem) (hbase : 256 ≤ base) {c : Cell} (hsp : c ≠ .sp)
    (hr13 : c ≠ .r13) : mem.cell c = m.cell c := by
  have hc : c.slot.toNat < 256 := by cases c <;> decide
  exact h.below c.slot ⟨by omega, fun heq => hsp (Cell.slot_injective heq),
    fun heq => hr13 (Cell.slot_injective heq)⟩

theorem Holds.location (h : Holds base xs m mem) (hbase : 256 ≤ base) (address : String → Nat)
    (s : Scope) (index : Int) (segment : Segment) :
    segment.location address s index mem = segment.location address s index m := by
  cases segment <;> simp only [Segment.location, h.cell hbase (c := .lcl) (by decide) (by decide),
    h.cell hbase (c := .arg) (by decide) (by decide),
    h.cell hbase (c := .this) (by decide) (by decide),
    h.cell hbase (c := .that) (by decide) (by decide)]

/-- A pop into a cell below the stack. -/
theorem Holds.popTo (h : Holds base (x :: xs) m mem) (hbase : 256 ≤ base)
    (hfits : base + xs.length + 1 ≤ 0x8000) {target : Value} (htarget : IsClear base target) :
    Holds base xs (m.set target x) (popTo .inMemory target mem) := by
  have hkept := h.setCell_r13 hbase (by rw [List.length_cons]; omega) target
  obtain ⟨hdrop, hdropped⟩ := hkept.drop hbase hfits
  have hremembered : (mem.setCell .r13 target).drop.cell .r13 = target := by
    rw [Memory.drop, Memory.cell_setCell_of_ne (by decide), Memory.cell_setCell_self]
  simp only [VM.popTo, Scratch.keep, Scratch.kept, hremembered, hdropped]
  exact hdrop.set (by omega) htarget x

/-- A unary operation. -/
theorem Holds.apply_unary (h : Holds base (y :: xs) m mem) (hbase : 256 ≤ base)
    (hfits : base + xs.length + 1 ≤ 0x8000) {op : Operation} (hop : op.isUnary = true) :
    Holds base (op.result y y :: xs) m (op.apply mem) := by
  have htop : mem (mem.cell .sp - 1) = y := by
    rw [h.top_eq, h.list.1]
  rw [Operation.apply, if_pos hop]
  simp only [htop]
  exact h.replace hbase hfits _

/-- A binary operation. -/
theorem Holds.apply_binary (h : Holds base (y :: x :: xs) m mem) (hbase : 256 ≤ base)
    (hfits : base + xs.length + 2 ≤ 0x8000) {op : Operation} (hop : op.isUnary = false) :
    Holds base (op.result x y :: xs) m (op.apply mem) := by
  obtain ⟨hdrop, hdropped⟩ := h.drop hbase (by rw [List.length_cons]; omega)
  have hbelow : mem.drop (mem.drop.cell .sp - 1) = x := by
    rw [hdrop.top_eq, hdrop.list.1]
  rw [Operation.apply, hop, if_neg Bool.false_ne_true]
  simp only [hbelow, hdropped]
  exact hdrop.replace hbase (by omega) _

end Steps

variable {address : String → Nat} {base : Nat} {p : Placed} {xs ys : List Value}
  {m m' mem : Memory}

/-- What an instruction does to the list. -/
theorem listStep_cases (h : listStep address p xs m = some (ys, m')) :
    (∃ segment index, p.instruction = .push segment index ∧
      ys = segment.value address p.scope index m :: xs ∧ m' = m) ∨
    (∃ segment index x, p.instruction = .pop segment index ∧ xs = x :: ys ∧
      m' = m.set (segment.location address p.scope index m) x) ∨
    (∃ op y zs, p.instruction = .operation op ∧ op.isUnary = true ∧ xs = y :: zs ∧
      ys = op.result y y :: zs ∧ m' = m) ∨
    (∃ op x y zs, p.instruction = .operation op ∧ op.isUnary = false ∧ xs = y :: x :: zs ∧
      ys = op.result x y :: zs ∧ m' = m) := by
  obtain ⟨s, i⟩ := p
  cases i with
  | push segment index =>
    obtain ⟨rfl, rfl⟩ := Prod.mk.inj (Option.some.inj h)
    exact .inl ⟨segment, index, rfl, rfl, rfl⟩
  | pop segment index =>
    cases xs with
    | nil => cases h
    | cons x xs =>
      obtain ⟨rfl, rfl⟩ := Prod.mk.inj (Option.some.inj h)
      exact .inr (.inl ⟨segment, index, x, rfl, rfl, rfl⟩)
  | operation op =>
    cases xs with
    | nil => cases h
    | cons y xs =>
      cases hop : op.isUnary with
      | true =>
        simp only [listStep, hop, if_true] at h
        obtain ⟨rfl, rfl⟩ := Prod.mk.inj (Option.some.inj h)
        exact .inr (.inr (.inl ⟨op, y, xs, rfl, hop, rfl, rfl, rfl⟩))
      | false =>
        simp only [listStep, hop, Bool.false_eq_true, if_false] at h
        cases xs with
        | nil => cases h
        | cons x xs =>
          obtain ⟨rfl, rfl⟩ := Prod.mk.inj (Option.some.inj h)
          exact .inr (.inr (.inr ⟨op, x, y, xs, rfl, hop, rfl, rfl, rfl⟩))
  | _ => cases h

/-- What an instruction does to the list and the cells below shows in the memory. -/
theorem Holds.step (h : Holds base xs m mem) (hbase : 256 ≤ base)
    (hfits : xs = [] ∨ base + xs.length ≤ 0x8000)
    (hstep : listStep address p xs m = some (ys, m'))
    (hclear : ∀ x ∈ segmentCell? address p m, IsClear base x)
    (hfits' : base + ys.length ≤ 0x8000) (next : Nat) :
    ∃ mem', p.instruction.step .inMemory address p.scope next mem = (next, mem') ∧
      Holds base ys m' mem' := by
  rcases listStep_cases hstep with ⟨segment, index, hpush, rfl, rfl⟩ |
    ⟨segment, index, x, hpop, rfl, rfl⟩ | ⟨op, y, zs, hop, hunary, rfl, rfl, rfl⟩ |
    ⟨op, x, y, zs, hop, hbinary, rfl, rfl, rfl⟩
  · refine ⟨_, by rw [hpush]; rfl, ?_⟩
    -- what is pushed stands below the stack, where the memories agree
    have hvalue : segment.value address p.scope index mem =
        segment.value address p.scope index m' := by
      simp only [segmentCell?, hpush] at hclear
      cases segment with
      | constant => rfl
      | _ =>
        simp only [Segment.value, h.location hbase]
        exact h.below _ (hclear _ rfl)
    rw [hvalue]
    exact h.push hbase (by rwa [List.length_cons, ← Nat.add_assoc] at hfits') _
  · refine ⟨_, by rw [hpop]; rfl, ?_⟩
    rw [h.location hbase]
    refine h.popTo hbase (hfits.resolve_left (List.cons_ne_nil _ _)) (hclear _ ?_)
    rw [segmentCell?, hpop]
    rfl
  · refine ⟨_, by rw [hop]; rfl, ?_⟩
    exact h.apply_unary hbase (hfits.resolve_left (List.cons_ne_nil _ _)) hunary
  · refine ⟨_, by rw [hop]; rfl, ?_⟩
    exact h.apply_binary hbase (hfits.resolve_left (List.cons_ne_nil _ _)) hbinary

/-- Instructions that work on a list jump nowhere and call no function. -/
theorem ne_goto_of_listStep (hstep : listStep address p xs m = some (ys, m')) :
    (∀ name, p.instruction ≠ .goto name) ∧ p.instruction.callee? = none := by
  rcases listStep_cases hstep with ⟨segment, index, hi, -⟩ | ⟨segment, index, x, hi, -⟩ |
    ⟨op, y, zs, hi, -⟩ | ⟨op, x, y, zs, hi, -⟩
  all_goals
    rw [hi]
    exact ⟨fun _ => Instruction.noConfusion, rfl⟩

/-! ### Runs -/

section Runs

variable {program ps back : List Placed} {text : List String} {c : Computer} {st : State}

/-- The computer follows a run on a list. -/
theorem Built.follows_listRun (hb : Built program text c.rom) (hsize : c.rom.size < 0x8000)
    (hbase : 256 ≤ base)
    (hrun : ListRun (Layout.ofCode (codeOf program)).address base ps xs m ys m')
    (hfits : xs = [] ∨ base + xs.length ≤ 0x8000) {k : Nat} (hps : program.drop k = ps ++ back)
    (hat : c.At (startOf program k) st) (h : Holds base xs m st.data.ram.memory) :
    ∃ st', c.Reaches st st' ∧ c.At (startOf program (k + ps.length)) st' ∧
      Holds base ys m' st'.data.ram.memory := by
  induction hrun generalizing k st with
  | nil => exact ⟨st, .refl st, hat, h⟩
  | @cons p ps xs ys zs m m' m'' hstep hclear hfits' _ ih =>
    have hp : program[k]? = some p := by
      rw [← List.head?_drop, hps]
      rfl
    have hps' : program.drop (k + 1) = ps ++ back := by
      rw [← List.tail_drop, hps]
      rfl
    obtain ⟨hgoto, hcallee⟩ := ne_goto_of_listStep hstep
    obtain ⟨mem', hout, hholds⟩ := h.step hbase hfits hstep hclear hfits' (startOf program (k + 1))
    obtain ⟨t, hreach, hfinish⟩ := executes (loaded_at (hb.loaded c rfl) hp)
      (hb.isWellFormed p (List.mem_of_getElem? hp)).isLegal hsize
      (by rw [hcallee]; exact fun _ hname => absurd hname (Option.not_mem_none _)) hat
    rw [← Placed.code, ← startOf_succ hp, hout] at hfinish
    have hmemory : t.data.ram.memory = mem' := hfinish.memory
    rw [← hmemory] at hholds
    -- such an instruction is no jump, so that the computer goes on behind it
    have hat' : c.At (startOf program (k + 1)) t :=
      hfinish.running.resolve_right fun h => h.2.elim hgoto
    obtain ⟨st', hreach', hat'', hholds'⟩ := ih (.inr hfits') hps' hat' hholds
    refine ⟨st', hreach.trans hreach', ?_, hholds'⟩
    rwa [List.length_cons, Nat.add_comm ps.length, ← Nat.add_assoc]

end Runs

/-- Pushes, pops and operations, wherever they stand in a compiled program, do what they do to a
list and the cells below it: behind their code, the list stands on the stack, and the other cells
below it, except for `SP` and `R13`, are those of the list machine. -/
theorem computer_refines_list {files : List SourceFile} {bootstrap comments : Bool}
    {text : List String} {words : Array Int} (hpaths : PathsAreProper files)
    (hcompile : compile files bootstrap comments = .ok text)
    (hassemble : assemble text = .ok words) (hsize : words.size ≤ 32767)
    {front ps back : List Placed} (hprogram : programOf files bootstrap = front ++ ps ++ back)
    {c : Computer} (hrom : c.rom = words) {st : State}
    (harrives : c.Arrives (startOf (programOf files bootstrap) front.length) st)
    (hhalted : st.halted = false) {base : Nat} (hbase : 256 ≤ base)
    (hsp : (st.data.ram.memory.cell .sp).toNat = base) {xs : List Value} {m : Memory}
    (hrun : ListRun (Layout.ofCode (codeOf (programOf files bootstrap))).address base ps []
      st.data.ram.memory xs m) :
    ∃ st', c.Reaches st st' ∧
      c.At (startOf (programOf files bootstrap) (front.length + ps.length)) st' ∧
      (st'.data.ram.memory.cell .sp).toNat = base + xs.length ∧
      (∀ j < xs.length,
        xs.reverse[j]? = some (st'.data.ram.memory (BitVec.ofNat 16 (base + j)))) ∧
      ∀ x, IsClear base x → st'.data.ram.memory x = m x := by
  subst hrom
  have hlt : c.rom.size < 0x8000 := Nat.lt_succ_of_le hsize
  have hb := built_of_compile hpaths hcompile hassemble hlt
  have hholds : Holds base [] st.data.ram.memory st.data.ram.memory := hsp ▸ Holds.self _
  have hdrop : (programOf files bootstrap).drop front.length = ps ++ back := by
    rw [hprogram, List.append_assoc, List.drop_left]
  obtain ⟨st', hreach, hat, hholds'⟩ := hb.follows_listRun hlt hbase hrun (.inl rfl) hdrop
    ⟨harrives, fun h => absurd h (by rw [hhalted]; exact Bool.false_ne_true)⟩ hholds
  refine ⟨st', hreach, hat, ?_, hholds'.list.getElem?, hholds'.below⟩
  -- the list ends in the address space, so that nothing is cut off the stack pointer
  have hfits : base + xs.length < 0x10000 := by
    have hbound := hrun.length_le
    rw [List.length_nil] at hbound
    omega
  rw [hholds'.sp_eq, BitVec.toNat_ofNat, Nat.mod_eq_of_lt hfits]

/-- A unit that stores a difference in a static variable and leaves it on the stack, with its
negation on top, between two jumps. -/
def differenceUnit : SourceFile where
  path := Files.Path.ofText "A.vm"
  bytes := ("goto A\nlabel A\npush constant 7\npush constant 10\nsub\npop static 0\n" ++
    "push static 0\npush static 0\nneg\ngoto A\n").toUTF8

/-- Its instructions between the jumps. -/
def differenceCode : List Placed :=
  [.push .constant 7, .push .constant 10, .operation .sub, .pop .static 0, .push .static 0,
    .push .static 0, .operation .neg].map (Placed.mk { unitName := "A" })

/-- All its instructions. -/
def differenceProgram : List Placed :=
  [.goto "A", .label "A"].map (Placed.mk { unitName := "A" }) ++ differenceCode ++
    [.goto "A"].map (Placed.mk { unitName := "A" })

/-- A computer at the first of them, with an empty stack. -/
def differenceStart : State :=
  { storeStart with pc := 2 }

/-- On any memory, they leave the difference in the cell of the static variable and below its
negation. -/
theorem listRun_difference (hcell : address (Scope.staticSymbol { unitName := "A" } 0) = 16) :
    ListRun address 256 differenceCode [] m [3, -3] (m.set 16 (-3)) := by
  have hlocation (m : Memory) :
      Segment.location address { unitName := "A" } 0 m .static = 16 := by
    rw [Segment.location, hcell]
    rfl
  have hclear (m : Memory) :
      ∀ x ∈ some (Segment.location address { unitName := "A" } 0 m .static), IsClear 256 x := by
    rintro x ⟨⟩
    rw [hlocation]
    exact ⟨by decide, by decide, by decide⟩
  have hpop : listStep address ⟨{ unitName := "A" }, .pop .static 0⟩ [-3] m =
      some ([], m.set 16 (-3)) := by
    simp only [listStep, hlocation]
  have hpush (xs : List Value) :
      listStep address ⟨{ unitName := "A" }, .push .static 0⟩ xs (m.set 16 (-3)) =
        some (-3 :: xs, m.set 16 (-3)) := by
    simp only [listStep, Segment.value, hlocation, Memory.set_self]
  have hnone : ∀ x ∈ (none : Option Value), IsClear 256 x :=
    fun _ hx => absurd hx (Option.not_mem_none _)
  refine .cons (show listStep _ _ [] m = some ([7], m) from rfl) hnone (by decide) ?_
  refine .cons (show listStep _ _ [7] m = some ([10, 7], m) from rfl) hnone (by decide) ?_
  refine .cons (show listStep _ _ [10, 7] m = some ([-3], m) from rfl) hnone (by decide) ?_
  refine .cons hpop (hclear _) (by decide) (.cons (hpush _) (hclear _) (by decide) ?_)
  refine .cons (hpush _) (hclear _) (by decide) ?_
  exact .cons rfl hnone (by decide) .nil

theorem computer_refines_list_difference :
    ∃ text words st', compile [differenceUnit] false false = .ok text ∧
      assemble text = .ok words ∧ Computer.Reaches { rom := words } differenceStart st' ∧
      Computer.At { rom := words } (startOf differenceProgram 9) st' ∧
      (st'.data.ram.memory.cell .sp).toNat = 258 ∧ st'.data.ram.memory 257 = 3 ∧
      st'.data.ram.memory 256 = -3 ∧ st'.data.ram.memory 16 = -3 := by
  obtain ⟨text, words, hcompile, hassemble⟩ := exists_words [differenceUnit] false false
    (by decide +kernel)
  have hpaths : PathsAreProper [differenceUnit] :=
    pathsAreProper_of_text fun file hfile => ⟨"A.vm", List.mem_singleton.1 hfile ▸ rfl⟩
  have hprogram : programOf [differenceUnit] false = differenceProgram := by decide +kernel
  have hsize : words.size ≤ 32767 := by
    rw [size_of_compile hpaths hcompile hassemble, hprogram]
    decide +kernel
  have harrives : Computer.Arrives { rom := words } (startOf differenceProgram 2)
      differenceStart :=
    ⟨by decide +kernel, fun _ h => absurd h List.not_mem_nil⟩
  -- the static variable is the only variable, so that it has the first free cell
  have hcell : (Layout.ofCode (codeOf differenceProgram)).address
      (Scope.staticSymbol { unitName := "A" } 0) = 16 := by
    decide +kernel
  rw [← hprogram] at harrives hcell ⊢
  obtain ⟨st', hreach, hat, hsp, hlist, hbelow⟩ :=
    computer_refines_list (c := { rom := words }) hpaths hcompile hassemble hsize hprogram rfl
      harrives rfl (Nat.le_refl _) rfl (listRun_difference hcell)
  have hsecond := Option.some.inj (hlist 1 (by decide))
  have hfirst := Option.some.inj (hlist 0 (by decide))
  refine ⟨text, words, st', hcompile, hassemble, hreach, hat, hsp, hsecond.symm, hfirst.symm, ?_⟩
  rw [hbelow 16 ⟨by decide, by decide, by decide⟩, Memory.set_self]

end HackToolchain.VM
