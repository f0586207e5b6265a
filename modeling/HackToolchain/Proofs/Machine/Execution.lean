import HackToolchain.Proofs.Machine.Computation

/-!
# Executing instructions

What one instruction does to a machine to which no write is due any more, in terms of `View`: the
registers and the memory as sixteen-bit values.

* `step_address`: an address is loaded;
* `step_compute`: the result of a computation is stored, and the jump is taken or not; the machine
  halts past the end of the program and on an idle loop.

`Reaches` relates two states of which the first becomes the second in some number of ticks.
-/

namespace HackToolchain.Machine

open Asm

/-! ### Memory as values -/

namespace Ram

/-- The values of all addresses. -/
def memory (ram : Ram) : Memory :=
  fun x => BitVec.ofNat 16 (ram.get x.toNat)

theorem toNat_memory (ram : Ram) (x : Value) : (ram.memory x).toNat = ram.get x.toNat := by
  have := ram.get_lt x.toNat
  rw [memory, BitVec.toNat_ofNat]
  omega

@[simp] theorem memory_grow (ram : Ram) (i : Nat) : (ram.grow i).memory = ram.memory := by
  funext x
  rw [memory, get_grow, memory]

theorem memory_put (ram : Ram) (x : Value) (value : Int) :
    (ram.put x.toNat value).memory = Function.update ram.memory x (BitVec.ofInt 16 value) := by
  funext y
  rw [memory, get_put, Function.update_apply]
  by_cases h : y = x
  · rw [if_pos (by rw [h]), if_pos h, Word.toNat]
    apply BitVec.eq_of_toNat_eq
    rw [BitVec.toNat_ofNat, BitVec.toNat_ofInt]
    omega
  · have hne : x.toNat ≠ y.toNat := fun hxy => h (BitVec.eq_of_toNat_eq hxy.symm)
    rw [if_neg hne, if_neg h, memory]

theorem locate_toNat (ram : Ram) (x : Value) : ram.locate x.toNat = some x.toNat := by
  have h : ¬ (x.toNat : Int) < 0 := by omega
  rw [locate, if_neg h, Int.toNat_natCast]

end Ram

/-- The registers and the memory as values. -/
structure View where
  /-- The address register. -/
  a : Value
  /-- The data register. -/
  d : Value
  /-- The memory. -/
  memory : Memory

namespace View

/-- The value of an operand. -/
def operand (v : View) : Operand → Value
  | .a => v.a
  | .m => v.memory v.a

/-- The result of a computation. -/
def result (v : View) (c : Compute) : Value :=
  c.comp.value v.d (v.operand c.comp.operand)

/-- A value put into registers, memory being written at the address that `A` held before. -/
def put (v : View) (registers : List Register) (x : Value) : View where
  a := if .a ∈ registers then x else v.a
  d := if .d ∈ registers then x else v.d
  memory := if .m ∈ registers then Function.update v.memory v.a x else v.memory

/-- The view after a computation. -/
def compute (v : View) (c : Compute) : View :=
  v.put c.dest.registers (v.result c)

end View

/-- The storage has the contents that a view shows.  The register `D` may hold an integer that is
no sixteen-bit value. -/
structure Storage.Shows (data : Storage) (v : View) : Prop where
  a : data.a = v.a.toNat
  d : BitVec.ofInt 16 data.d = v.d
  memory : data.ram.memory = v.memory

/-! ### Computations -/

namespace Storage

variable {data : Storage} {v : View} {x : Value}

/-- The last result is a value, and the flags are its flags. -/
structure HasResult (data : Storage) (x : Value) : Prop where
  out : data.out = x.toNat
  zr : data.zr = ((x.toNat : Int) == 0)
  ng : data.ng = ((x.toNat : Int) / 0x8000 % 2 == 1)

theorem hasResult_setResult (data : Storage) (x : Value) : (data.setResult x.toNat).HasResult x :=
  ⟨rfl, rfl, rfl⟩

theorem HasResult.zr_eq (h : data.HasResult x) : data.zr = decide (x = 0) := by
  rw [h.zr, beq_eq_decide, decide_eq_decide, BitVec.toNat_eq]
  exact Int.natCast_eq_zero

theorem HasResult.ng_eq (h : data.HasResult x) : data.ng = decide (x.toInt < 0) := by
  rw [h.ng, beq_eq_decide, decide_eq_decide, BitVec.toInt_eq_toNat_cond]
  have := x.isLt
  split <;> omega

/-- The arithmetic unit computes the result of a computation; the memory grows if the second operand
is a cell of it. -/
theorem compute_eq (h : data.Shows v) (c : Compute) :
    data.compute c.comp.code = .ok (({ data with
      ram := if c.comp.operand = .m then data.ram.grow v.a.toNat else data.ram } :
        Storage).setResult (v.result c).toNat) := by
  unfold Storage.compute
  rw [code_testBit_six]
  cases hop : c.comp.operand with
  | a =>
    have hresult : arithmetic c.comp.code data.d data.a = (v.result c).toNat := by
      rw [h.a, arithmetic_code, h.d, View.result, hop]
      rfl
    rw [if_neg (by decide), if_neg (by decide), hresult]
  | m =>
    rw [if_pos (by decide), if_pos rfl, h.a, Ram.locate_toNat]
    dsimp only
    rw [← Ram.toNat_memory, arithmetic_code, h.d, h.memory, View.result, hop]
    rfl

/-- The arithmetic unit changes nothing that a view shows. -/
theorem exists_compute (h : data.Shows v) (c : Compute) :
    ∃ data', data.compute c.comp.code = .ok data' ∧ data'.Shows v ∧
      data'.HasResult (v.result c) := by
  refine ⟨_, compute_eq h c, ⟨h.a, h.d, ?_⟩, hasResult_setResult _ _⟩
  rw [← h.memory, setResult]
  dsimp only
  split
  · exact Ram.memory_grow _ _
  · rfl

/-- The last result is put into the registers of a destination. -/
theorem store_eq (data : Storage) (dest : Dest) (address : Value) :
    data.store dest.bits address.toNat = .ok { data with
      a := if .a ∈ dest.registers then data.out else data.a
      d := if .d ∈ dest.registers then data.out else data.d
      ram := if .m ∈ dest.registers then data.ram.put address.toNat data.out else data.ram } := by
  obtain ⟨hm, hd, ha⟩ := dest.testBit_bits
  simp only [Storage.store, hm, hd, ha, decide_eq_true_eq]
  -- memory first, then the two registers
  have hwrite : (if Register.m ∈ dest.registers then data.write address.toNat data.out
      else .ok data) = .ok { data with
        ram := if .m ∈ dest.registers then data.ram.put address.toNat data.out else data.ram } := by
    split
    · rw [write, Ram.locate_toNat]
    · rfl
  rw [hwrite, Outcome.andThen]
  by_cases hra : Register.a ∈ dest.registers <;> by_cases hrd : Register.d ∈ dest.registers <;>
    simp only [hra, hrd, if_true, if_false]

/-- The view after the last result has been put into the registers of a destination. -/
theorem exists_store {x : Value} (h : data.Shows v) (hx : data.HasResult x) (dest : Dest) :
    ∃ data', data.store dest.bits v.a.toNat = .ok data' ∧ data'.Shows (v.put dest.registers x) ∧
      data'.HasResult x := by
  refine ⟨_, data.store_eq dest v.a, ⟨?_, ?_, ?_⟩, hx.out, hx.zr, hx.ng⟩
  · rw [View.put, h.a, hx.out]
    split <;> rfl
  · simp only [View.put, hx.out]
    split
    · exact ofInt_toNat x
    · exact h.d
  · simp only [View.put, hx.out]
    split
    · rw [Ram.memory_put, ofInt_toNat, h.memory]
    · exact h.memory

/-- Scheduled writes change nothing but memory. -/
theorem perform_eq_ok {events : List Event} {data data' : Storage}
    (h : data.perform events = .ok data') : data' = { data with ram := data'.ram } := by
  induction events generalizing data with
  | nil =>
    injection h with h
    rw [← h]
  | cons event events ih =>
    unfold perform write at h
    cases hplace : data.ram.locate event.address with
    | none =>
      rw [hplace] at h
      cases h
    | some i =>
      rw [hplace] at h
      have hrest := ih h
      exact hrest

end Storage

/-! ### Ticks -/

theorem Schedule.due_eq_nil {schedule : Schedule} {tick : Int}
    (h : ∀ event ∈ schedule, event.tick < tick) : schedule.due tick = [] := by
  rw [due, List.filter_eq_nil_iff]
  intro event hevent
  have := h event hevent
  rw [beq_iff_eq]
  omega

namespace Computer

variable {c : Computer} {s t u : State}

/-- Some number of ticks, without regard to the limit. -/
def ticks (c : Computer) : Nat → State → Outcome State
  | 0, s => .ok s
  | n + 1, s => (c.step s).andThen (c.ticks n)

/-- A state becomes another in some number of ticks. -/
def Reaches (c : Computer) (s t : State) : Prop :=
  ∃ n, c.ticks n s = .ok t

theorem Reaches.refl (s : State) : c.Reaches s s :=
  ⟨0, rfl⟩

theorem Reaches.head (hst : c.step s = .ok t) (htu : c.Reaches t u) : c.Reaches s u := by
  obtain ⟨n, hn⟩ := htu
  refine ⟨n + 1, ?_⟩
  rw [ticks, hst]
  exact hn

theorem Reaches.trans (hst : c.Reaches s t) (htu : c.Reaches t u) : c.Reaches s u := by
  obtain ⟨n, hn⟩ := hst
  induction n generalizing s with
  | zero =>
    injection hn with hn
    rwa [hn]
  | succ n ih =>
    rw [ticks] at hn
    cases hs : c.step s with
    | ok s' =>
      rw [hs] at hn
      exact .head hs (ih hn)
    | fault cause s' =>
      rw [hs] at hn
      contradiction

theorem Reaches.single (hst : c.step s = .ok t) : c.Reaches s t :=
  .head hst (.refl t)

/-- Of two states that a state becomes, one becomes the other. -/
theorem Reaches.total (hst : c.Reaches s t) (hsu : c.Reaches s u) :
    c.Reaches t u ∨ c.Reaches u t := by
  obtain ⟨n, hn⟩ := hst
  -- the runs go step by step together until one of them ends
  induction n generalizing s with
  | zero =>
    injection hn with hn
    exact .inl (hn ▸ hsu)
  | succ n ih =>
    obtain ⟨m, hm⟩ := hsu
    cases m with
    | zero =>
      injection hm with hm
      exact .inr ⟨n + 1, hm ▸ hn⟩
    | succ m =>
      rw [ticks] at hn hm
      cases hs : c.step s with
      | ok s' =>
        rw [hs] at hn hm
        exact ih ⟨m, hm⟩ hn
      | fault cause s' =>
        rw [hs] at hn
        contradiction

/-! ### One instruction -/

/-- The machine is at an address of the program, or right behind it, and no write is due any
more. -/
structure Arrives (c : Computer) (pc : Nat) (s : State) : Prop where
  pc_eq : s.pc = pc
  quiet : ∀ event ∈ c.schedule, event.tick < s.tick

/-- The machine is at an address and goes on from there, if a program word is there. -/
structure At (c : Computer) (pc : Nat) (s : State) : Prop extends c.Arrives pc s where
  running : s.halted = true → c.rom.size ≤ pc

/-- A jump to `target` in the instruction at `pc` closes an idle loop: the instruction just before
it is at `target` and loads `target`. -/
def IsIdle (c : Computer) (pc target : Nat) : Prop :=
  target + 1 = pc ∧ c.rom[target]? = some (target : Int)

instance (c : Computer) (pc target : Nat) : Decidable (c.IsIdle pc target) :=
  inferInstanceAs (Decidable (_ ∧ _))

theorem fetch?_natCast (c : Computer) {pc : Nat} {word : Int} (h : c.rom[pc]? = some word) :
    c.fetch? pc = some word := by
  obtain ⟨hlt, -⟩ := Array.getElem?_eq_some_iff.1 h
  rw [fetch?, place?_natCast hlt]
  exact h

theorem At.not_halted {pc : Nat} {word : Int} (h : c.At pc s) (hw : c.rom[pc]? = some word) :
    s.halted = false := by
  obtain ⟨hlt, -⟩ := Array.getElem?_eq_some_iff.1 hw
  rw [← Bool.not_eq_true]
  intro hs
  have := h.running hs
  omega

/-- The writes due before a step change nothing but memory. -/
theorem performDue_eq_ok {s' : State} (h : c.performDue s = .ok s') :
    s' = { s with data := { s.data with ram := s'.data.ram } } := by
  obtain ⟨data, pc, ir, tick, halted, lastFetch⟩ := s
  rw [performDue] at h
  cases hperform : data.perform (c.schedule.due tick) with
  | ok data' =>
    rw [hperform] at h
    injection h with h
    subst h
    exact congrArg (State.mk · pc ir tick halted lastFetch) (Storage.perform_eq_ok hperform)
  | fault cause data' =>
    rw [hperform] at h
    cases h

/-- Nothing is written before a step, when no write is due any more. -/
theorem performDue_of_quiet (h : ∀ event ∈ c.schedule, event.tick < s.tick) :
    c.performDue s = .ok s := by
  cases s
  rw [performDue, Schedule.due_eq_nil h]
  rfl

theorem Arrives.performDue_eq {pc : Nat} (h : c.Arrives pc s) : c.performDue s = .ok s :=
  performDue_of_quiet h.quiet

/-- A step performs what is due, fetches and executes. -/
theorem step_eq_execute {s₀ : State} {pc : Nat} {word : Int} (hw : c.rom[pc]? = some word)
    (hdue : c.performDue s = .ok s₀) (hpc : s₀.pc = pc) (hrun : s.halted = false) :
    c.step s = c.execute word { s₀ with lastFetch := pc, ir := some word } := by
  obtain ⟨hlt, -⟩ := Array.getElem?_eq_some_iff.1 hw
  have hend : c.isPastEnd s₀.pc = false := by
    rw [isPastEnd, hpc, decide_eq_false_iff_not]
    omega
  rw [step, if_neg (by rw [hrun]; exact Bool.false_ne_true), hdue]
  show c.instruction s₀ = _
  rw [instruction, hend, if_neg Bool.false_ne_true]
  simp only [hpc, fetch?_natCast c hw]

/-- A step fetches and executes, when no write is due. -/
theorem At.step_eq {pc : Nat} {word : Int} (h : c.At pc s) (hw : c.rom[pc]? = some word) :
    c.step s = c.execute word { s with lastFetch := pc, ir := some word } :=
  step_eq_execute hw h.performDue_eq h.pc_eq (h.not_halted hw)

/-- Behind the end of the program nothing happens any more. -/
theorem Arrives.data_eq_of_reaches {pc : Nat} (h : c.Arrives pc s) (hend : c.rom.size ≤ pc)
    (hst : c.Reaches s t) : t.data = s.data := by
  obtain ⟨n, hn⟩ := hst
  induction n generalizing s with
  | zero =>
    injection hn with hn
    rw [hn]
  | succ n ih =>
    -- behind the end of the program, a step halts the machine and does nothing else
    have hstep : c.step s = .ok { s with halted := true } := by
      have hpast : c.isPastEnd s.pc = true := by
        rw [isPastEnd, h.pc_eq, decide_eq_true_eq]
        omega
      rw [step]
      split
      · rename_i hhalted
        rw [← hhalted]
      · rw [h.performDue_eq]
        show c.instruction s = _
        rw [instruction, hpast, if_pos rfl]
    rw [ticks, hstep] at hn
    exact ih (s := { s with halted := true }) ⟨h.pc_eq, h.quiet⟩ hn

/-- The end of an instruction leaves the machine where the program counter is put. -/
theorem arrives_finish {pc target : Nat} (h : c.Arrives pc s) :
    c.Arrives target (c.finish target s) := by
  refine ⟨rfl, fun event hevent => ?_⟩
  have := h.quiet event hevent
  simp only [finish]
  omega

theorem at_finish {pc : Nat} (target : Nat) (h : c.Arrives pc s) (hs : s.halted = false) :
    c.At target (c.finish target s) := by
  refine ⟨arrives_finish h, fun hhalt => ?_⟩
  simpa [finish, isPastEnd, hs] using hhalt

/-- Whether a jump closes an idle loop can always be told. -/
theorem closesIdleLoop_eq (c : Computer) {pc : Nat} (target : Nat) (tick : Int)
    (hpc : pc < c.rom.size) :
    c.closesIdleLoop target pc tick =
      .ok (decide (c.IsIdle pc target) && !c.schedule.hasLater tick) := by
  rw [closesIdleLoop]
  by_cases htarget : target + 1 = pc
  · have hlt : target < c.rom.size := by omega
    have hget : c.rom[target]? = some c.rom[target] := Array.getElem?_eq_getElem hlt
    rw [if_pos (by omega)]
    simp only [c.fetch?_natCast hget, IsIdle, htarget, true_and, hget, Option.some.injEq]
    rw [beq_eq_decide]
  · rw [if_neg (by omega), decide_eq_false fun hidle => htarget hidle.1, Bool.false_and]

theorem hasLater_eq_false {c : Computer} {tick : Int}
    (hquiet : ∀ event ∈ c.schedule, event.tick < tick) : c.schedule.hasLater tick = false := by
  rw [Schedule.hasLater, List.any_eq_false]
  intro event hevent
  have := hquiet event hevent
  rw [decide_eq_true_eq]
  omega

theorem takesJump_seven (zr ng : Bool) : takesJump 7 zr ng = true := by
  cases zr <;> cases ng <;> rfl

/-- A jump in the instruction at `pc` is made without a fault, if its target is not negative. -/
theorem branch_of_nonneg {jump pc : Nat} {target : Int} (htarget : 0 ≤ target)
    (hfetch : s.lastFetch = pc) (hpc : pc < c.rom.size) :
    c.branch jump target s =
      .ok (c.finish (if takesJump jump s.data.zr s.data.ng then target else s.pc + 1) { s with
        halted := s.halted || (jump == 7 && decide (c.IsIdle pc target.toNat) &&
          !c.schedule.hasLater s.tick) }) := by
  obtain ⟨n, rfl⟩ := Int.eq_ofNat_of_zero_le htarget
  unfold branch
  by_cases hjump : jump = 7
  · subst hjump
    simp only [takesJump_seven, if_true, hfetch, c.closesIdleLoop_eq n s.tick hpc,
      beq_self_eq_true, Bool.true_and, Int.toNat_natCast]
  · simp only [hjump, if_false, beq_eq_false_iff_ne.2 hjump, Bool.false_and, Bool.or_false]
    split <;> rfl

/-- A jump goes to its target if it is taken.  It halts the machine if it closes an idle loop. -/
theorem branch_eq (c : Computer) {pc : Nat} (jump : Jump) {target x : Value}
    (hx : s.data.HasResult x) (hfetch : s.lastFetch = pc) (hpc : pc < c.rom.size) :
    c.branch jump.bits target.toNat s =
      .ok (c.finish (if jump.holds x then target.toNat else s.pc + 1) { s with
        halted := s.halted || (decide (jump = .always) && decide (c.IsIdle pc target.toNat) &&
          !c.schedule.hasLater s.tick) }) := by
  have hflags : takesJump jump.bits s.data.zr s.data.ng = jump.holds x := by
    rw [hx.zr, hx.ng, takesJump_bits]
  have halways : (jump.bits == 7) = decide (jump = .always) := by
    cases jump <;> rfl
  rw [branch_of_nonneg (Int.natCast_nonneg _) hfetch hpc, hflags, halways, Int.toNat_natCast]

/-- An address is loaded. -/
theorem step_address {pc n : Nat} (h : c.At pc s) (hw : c.rom[pc]? = some (n : Int))
    (hn : n < 0x8000) :
    ∃ s', c.step s = .ok s' ∧ c.At (pc + 1) s' ∧ s'.data = { s.data with a := n } := by
  have hpc : s.pc + 1 = ((pc + 1 : Nat) : Int) := by
    rw [h.pc_eq]
    rfl
  rw [h.step_eq hw, execute, Word.isCompute_address hn, if_neg Bool.false_ne_true]
  refine ⟨_, rfl, ?_, rfl⟩
  rw [hpc]
  exact at_finish _ ⟨h.pc_eq, h.quiet⟩ (h.not_halted hw)

/-- A computation stores its result; the jump is taken or the next instruction follows. -/
theorem step_compute {pc : Nat} {v : View} {k : Compute} (h : c.At pc s) (hv : s.data.Shows v)
    (hw : c.rom[pc]? = some (k.encode : Int)) :
    ∃ s', c.step s = .ok s' ∧ s'.data.Shows (v.compute k) ∧
      (k.jump.holds (v.result k) = false → c.At (pc + 1) s') ∧
      (k.jump.holds (v.result k) = true → c.Arrives v.a.toNat s' ∧
        ((k.jump = .always → ¬ c.IsIdle pc v.a.toNat) → c.At v.a.toNat s')) := by
  obtain ⟨data, hcompute, hdata, hresult⟩ := Storage.exists_compute hv k
  obtain ⟨data', hstore, hdata', hresult'⟩ := Storage.exists_store hdata hresult k.dest
  obtain ⟨hlt, -⟩ := Array.getElem?_eq_some_iff.1 hw
  have hrun := h.not_halted hw
  rw [h.step_eq hw, execute, Word.isCompute_encode, if_pos rfl]
  simp only [Word.code_encode, Word.dest_encode, Word.jump_encode, hcompute, Outcome.andThen,
    hv.a, hstore, Outcome.map]
  rw [c.branch_eq k.jump hresult' rfl hlt, hasLater_eq_false h.quiet]
  have harrives : ∀ halted, c.Arrives pc (State.mk data' s.pc (some k.encode) s.tick halted pc) :=
    fun _ => ⟨h.pc_eq, h.quiet⟩
  refine ⟨_, rfl, hdata', fun hholds => ?_, fun hholds => ?_⟩
  · -- a jump that is not taken goes on behind the instruction
    have hjump : k.jump ≠ .always := by
      intro hjump
      rw [hjump] at hholds
      cases hholds
    have hpc : s.pc + 1 = ((pc + 1 : Nat) : Int) := by
      rw [h.pc_eq]
      rfl
    rw [if_neg (by rw [hholds]; exact Bool.false_ne_true), hpc]
    exact at_finish _ (harrives _) (by rw [hrun, decide_eq_false hjump]; rfl)
  · -- a jump that is taken halts only in an idle loop
    rw [if_pos hholds]
    refine ⟨arrives_finish (harrives _), fun hidle => at_finish _ (harrives _) ?_⟩
    by_cases hjump : k.jump = .always
    · rw [hrun, decide_eq_false (hidle hjump), Bool.and_false]
      rfl
    · rw [hrun, decide_eq_false hjump]
      rfl

end Computer

end HackToolchain.Machine
