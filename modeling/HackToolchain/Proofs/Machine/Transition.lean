import HackToolchain.Proofs.Machine.Execution
import Mathlib.Logic.Function.Iterate

/-!
# Steps in closed form

A step can stop at a fault only where an address is negative.  In a machine whose program consists
of sixteen-bit words and whose schedule names no negative address that never happens, and a step is
then a function from states to states, `Computer.next`, of which all that follows is proved.

* `State.IsSound`: the registers and the last result are sixteen-bit values, the flags are those of
  the result, and the program counter is not negative;
* `step_eq_next`, `State.IsSound.next`: from such a state a step is made without a fault, and leads
  to such a state;
* `ticks_eq_iterate`, `runFor_eq_iterate`: so any number of ticks, and a run under a tick limit, are
  iterates;
* `get_of_reaches`: cells beyond those that a word can point to are written by the schedule alone.
-/

namespace HackToolchain.Machine

open Asm

/-! ### Words -/

/-- The integer is a sixteen-bit value. -/
def IsWord (x : Int) : Prop :=
  0 ≤ x ∧ x < 0x10000

instance (x : Int) : Decidable (IsWord x) :=
  inferInstanceAs (Decidable (_ ∧ _))

theorem isWord_toNat (x : Value) : IsWord x.toNat := by
  have := x.isLt
  constructor <;> omega

theorem IsWord.exists_value {x : Int} (h : IsWord x) : ∃ v : Value, x = v.toNat := by
  obtain ⟨hlo, hhi⟩ := h
  refine ⟨BitVec.ofInt 16 x, ?_⟩
  rw [BitVec.toNat_ofInt]
  omega

/-- The result of the arithmetic unit is a word, whatever the first operand. -/
theorem isWord_arithmetic (control : Nat) (x : Int) {y : Int} (hy : IsWord y) :
    IsWord (arithmetic control x y) := by
  obtain ⟨v, rfl⟩ := hy.exists_value
  rw [arithmetic_toNat]
  exact isWord_toNat _

namespace Ram

theorem isWord_get (ram : Ram) (i : Nat) : IsWord (ram.get i) := by
  have := ram.get_lt i
  constructor <;> omega

theorem locate_of_nonneg (ram : Ram) {address : Int} (h : 0 ≤ address) :
    ram.locate address = some address.toNat :=
  if_neg (Int.not_lt.2 h)

/-- The memory after some writes, in order. -/
def writeAll (ram : Ram) (events : List Event) : Ram :=
  events.foldl (fun ram event => ram.put event.address.toNat event.value) ram

theorem writeAll_cons (ram : Ram) (event : Event) (events : List Event) :
    ram.writeAll (event :: events) =
      (ram.put event.address.toNat event.value).writeAll events := rfl

/-- After some writes, a memory has just the cells that it had and those up to the ones written. -/
theorem size_writeAll_le_iff (ram : Ram) (events : List Event) (bound : Nat) :
    (ram.writeAll events).size ≤ bound ↔
      ram.size ≤ bound ∧ ∀ event ∈ events, event.address.toNat < bound := by
  induction events generalizing ram with
  | nil => exact ⟨fun h => ⟨h, fun _ hmem => absurd hmem List.not_mem_nil⟩, And.left⟩
  | cons event events ih =>
    rw [writeAll_cons, ih, size_put, List.forall_mem_cons, Nat.max_le, and_assoc]
    rfl

end Ram

/-! ### Storage -/

namespace Storage

variable {data : Storage}

theorem perform_of_nonneg {events : List Event} (h : ∀ event ∈ events, 0 ≤ event.address) :
    data.perform events = .ok { data with ram := data.ram.writeAll events } := by
  induction events generalizing data with
  | nil => rfl
  | cons event events ih =>
    obtain ⟨hevent, hevents⟩ := List.forall_mem_cons.1 h
    rw [perform, write, data.ram.locate_of_nonneg hevent]
    exact ih hevents

/-- The second operand that a code selects. -/
def operand (data : Storage) (code : Nat) : Int :=
  if code.testBit 6 then data.ram.get data.a.toNat else data.a

/-- The storage after a computation; the memory has grown up to the operand if that is a cell. -/
def computed (data : Storage) (code : Nat) : Storage :=
  { data with
    ram := if code.testBit 6 then data.ram.grow data.a.toNat else data.ram }.setResult
      (arithmetic code data.d (data.operand code))

theorem compute_of_nonneg (h : 0 ≤ data.a) (code : Nat) :
    data.compute code = .ok (data.computed code) := by
  unfold compute computed operand
  split
  · rw [data.ram.locate_of_nonneg h]
  · rfl

/-- The storage after the last result has been put into the registers of a destination field. -/
def stored (data : Storage) (dest : Nat) (address : Int) : Storage :=
  { data with
    a := if dest.testBit 2 then data.out else data.a
    d := if dest.testBit 1 then data.out else data.d
    ram := if dest.testBit 0 then data.ram.put address.toNat data.out else data.ram }

theorem store_of_nonneg {address : Int} (h : 0 ≤ address) (dest : Nat) :
    data.store dest address = .ok (data.stored dest address) := by
  have hwrite : data.write address data.out =
      .ok { data with ram := data.ram.put address.toNat data.out } := by
    rw [write, data.ram.locate_of_nonneg h]
  unfold store stored
  cases dest.testBit 0 <;> cases dest.testBit 1 <;> cases dest.testBit 2 <;>
    simp only [hwrite, Outcome.andThen, if_true, if_false, Bool.false_eq_true]

/-- The storage after an instruction. -/
def executed (data : Storage) (word : Int) : Storage :=
  if Word.isCompute word then (data.computed (Word.code word)).stored (Word.dest word) data.a
  else { data with a := word }

/-- The registers and the last result are words, and the flags are those of the result. -/
structure IsSound (data : Storage) : Prop where
  a : IsWord data.a
  d : IsWord data.d
  out : IsWord data.out
  zr : data.zr = decide (data.out = 0)
  ng : data.ng = decide (0x8000 ≤ data.out)

theorem isSound_fresh (ramWords : Int) : (fresh ramWords).IsSound :=
  have hzero : IsWord 0 := ⟨by decide, by decide⟩
  ⟨hzero, hzero, hzero, rfl, rfl⟩

theorem IsSound.withRam (h : data.IsSound) (ram : Ram) : { data with ram := ram }.IsSound :=
  ⟨h.a, h.d, h.out, h.zr, h.ng⟩

theorem IsSound.setResult (h : data.IsSound) {out : Int} (hout : IsWord out) :
    (data.setResult out).IsSound := by
  refine ⟨h.a, h.d, hout, rfl, ?_⟩
  obtain ⟨hlo, hhi⟩ := hout
  show (out / 0x8000 % 2 == 1) = decide (0x8000 ≤ out)
  rw [beq_eq_decide, decide_eq_decide]
  omega

theorem IsSound.isWord_operand (h : data.IsSound) (code : Nat) : IsWord (data.operand code) := by
  unfold operand
  split
  · exact data.ram.isWord_get _
  · exact h.a

theorem IsSound.computed (h : data.IsSound) (code : Nat) : (data.computed code).IsSound :=
  (h.withRam _).setResult (isWord_arithmetic code data.d (h.isWord_operand code))

theorem IsSound.stored (h : data.IsSound) (dest : Nat) (address : Int) :
    (data.stored dest address).IsSound := by
  refine ⟨?_, ?_, h.out, h.zr, h.ng⟩
  · show IsWord (if dest.testBit 2 then data.out else data.a)
    split
    · exact h.out
    · exact h.a
  · show IsWord (if dest.testBit 1 then data.out else data.d)
    split
    · exact h.out
    · exact h.d

theorem IsSound.executed (h : data.IsSound) {word : Int} (hword : IsWord word) :
    (data.executed word).IsSound := by
  unfold Storage.executed
  split
  · exact (h.computed _).stored _ _
  · exact ⟨hword, h.d, h.out, h.zr, h.ng⟩

/-- An instruction keeps the register `A` a word, and writes no cell beyond those that a word can
point to. -/
theorem far_executed (ha : IsWord data.a) {word : Int}
    (hword : IsWord word) :
    IsWord (data.executed word).a ∧
      ∀ i, 0x10000 ≤ i → (data.executed word).ram.get i = data.ram.get i := by
  unfold Storage.executed
  split
  · have hout : IsWord (data.computed (Word.code word)).out := by
      refine isWord_arithmetic _ _ ?_
      unfold operand
      split
      · exact data.ram.isWord_get _
      · exact ha
    have hram (i : Nat) : (data.computed (Word.code word)).ram.get i = data.ram.get i := by
      unfold computed setResult
      dsimp only
      split
      · exact Ram.get_grow _ _ _
      · rfl
    constructor
    · show IsWord (if _ then _ else _)
      split
      · exact hout
      · exact ha
    · -- memory is written at the address that `A` held, and that is a word
      intro i hi
      show (if _ then _ else _ : Ram).get i = _
      obtain ⟨hlo, hhi⟩ := ha
      split
      · rw [Ram.get_put, if_neg (by omega), hram]
      · exact hram i
  · exact ⟨hword, fun _ _ => rfl⟩

end Storage

/-! ### Machines and states -/

/-- The program consists of words, and no address in the schedule is negative. -/
structure Computer.IsWellFormed (c : Computer) : Prop where
  words : ∀ word ∈ c.rom, IsWord word
  addresses : ∀ event ∈ c.schedule, 0 ≤ event.address

instance (c : Computer) : Decidable c.IsWellFormed :=
  decidable_of_iff
    ((∀ word ∈ c.rom.toList, IsWord word) ∧ ∀ event ∈ c.schedule, 0 ≤ event.address)
    ⟨fun ⟨hwords, haddresses⟩ => ⟨fun word h => hwords word (Array.mem_toList_iff.2 h), haddresses⟩,
      fun hc => ⟨fun word h => hc.words word (Array.mem_toList_iff.1 h), hc.addresses⟩⟩

/-- The storage is sound, and the program counter is not negative. -/
structure State.IsSound (s : State) : Prop where
  data : s.data.IsSound
  pc : 0 ≤ s.pc

theorem State.isSound_fresh (ramWords : Int) : (State.fresh ramWords).IsSound :=
  ⟨Storage.isSound_fresh ramWords, Int.le_refl 0⟩

namespace Computer

variable {c : Computer} {s : State}

theorem IsWellFormed.isWord_of_fetch (hc : c.IsWellFormed) {pc : Nat} {word : Int}
    (h : c.rom[pc]? = some word) : IsWord word :=
  hc.words word (Array.mem_of_getElem? h)

/-- The storage after the writes due at the tick of a state. -/
def dueStorage (c : Computer) (s : State) : Storage :=
  { s.data with ram := s.data.ram.writeAll (c.schedule.due s.tick) }

theorem IsWellFormed.performDue_eq (hc : c.IsWellFormed) (s : State) :
    c.performDue s = .ok { s with data := c.dueStorage s } := by
  have hdue : ∀ event ∈ c.schedule.due s.tick, 0 ≤ event.address :=
    fun event hevent => hc.addresses event (List.mem_filter.1 hevent).1
  obtain ⟨data, pc, ir, tick, halted, lastFetch⟩ := s
  rw [performDue, Storage.perform_of_nonneg hdue]
  rfl

/-- Where an instruction at `pc` goes on that turns the storage `before` into `after`. -/
def successor (word pc : Int) (before after : Storage) : Int :=
  if Word.isCompute word && takesJump (Word.jump word) after.zr after.ng then before.a else pc + 1

/-- The instruction at `pc` halts the machine, because it is a jump to `target` that closes an idle
loop. -/
def idles (c : Computer) (word : Int) (pc target : Nat) (tick : Int) : Bool :=
  Word.isCompute word && Word.jump word == 7 && decide (c.IsIdle pc target) &&
    !c.schedule.hasLater tick

/-- The state after the instruction that stands at the program counter. -/
def proceed (c : Computer) (word : Int) (s : State) : State :=
  let data := c.dueStorage s
  let pc := successor word s.pc data (data.executed word)
  { data := data.executed word
    pc := pc
    ir := some word
    tick := s.tick + 1
    halted := c.idles word s.pc.toNat s.data.a.toNat s.tick || c.isPastEnd pc
    lastFetch := s.pc }

/-- The next state. -/
def next (c : Computer) (s : State) : State :=
  if s.halted then s
  else
    match c.rom[s.pc.toNat]? with
    | none => { s with data := c.dueStorage s, halted := true }
    | some word => c.proceed word s

theorem next_of_halted (h : s.halted = true) : c.next s = s :=
  if_pos h

theorem next_of_pastEnd (hrun : s.halted = false) (h : c.rom[s.pc.toNat]? = none) :
    c.next s = { s with data := c.dueStorage s, halted := true } := by
  rw [next, hrun, h, if_neg Bool.false_ne_true]

theorem next_of_fetch (hrun : s.halted = false) {word : Int}
    (h : c.rom[s.pc.toNat]? = some word) : c.next s = c.proceed word s := by
  rw [next, hrun, h, if_neg Bool.false_ne_true]

/-- The three ways to the next state. -/
theorem next_cases (c : Computer) (s : State) :
    s.halted = true ∧ c.next s = s ∨
    s.halted = false ∧ c.rom[s.pc.toNat]? = none ∧
      c.next s = { s with data := c.dueStorage s, halted := true } ∨
    s.halted = false ∧ ∃ word, c.rom[s.pc.toNat]? = some word ∧ c.next s = c.proceed word s := by
  cases hrun : s.halted with
  | true => exact .inl ⟨rfl, next_of_halted hrun⟩
  | false =>
    right
    cases hfetch : c.rom[s.pc.toNat]? with
    | none => exact .inl ⟨rfl, rfl, next_of_pastEnd hrun hfetch⟩
    | some word => exact .inr ⟨rfl, word, rfl, next_of_fetch hrun hfetch⟩

/-! ### Steps -/

theorem execute_of_isSound (hs : s.data.IsSound) (hrun : s.halted = false) {pc : Nat} (word : Int)
    (hfetch : s.lastFetch = pc) (hpc : pc < c.rom.size) :
    c.execute word s =
      .ok (c.finish (successor word s.pc s.data (s.data.executed word)) { s with
        data := s.data.executed word
        halted := c.idles word pc s.data.a.toNat s.tick }) := by
  obtain ⟨data, spc, ir, tick, halted, lastFetch⟩ := s
  obtain rfl : halted = false := hrun
  have ha : 0 ≤ data.a := hs.a.1
  unfold execute successor Storage.executed idles
  cases Word.isCompute word with
  | false => rfl
  | true =>
    simp only [if_true, Bool.true_and, Storage.compute_of_nonneg ha, Outcome.andThen,
      Storage.store_of_nonneg ha, Outcome.map]
    exact branch_of_nonneg (s := ⟨_, spc, ir, tick, false, lastFetch⟩) ha hfetch hpc

/-- From a sound state a step is made without a fault. -/
theorem step_eq_next (hc : c.IsWellFormed) (hs : s.IsSound) : c.step s = .ok (c.next s) := by
  rcases c.next_cases s with ⟨hrun, hnext⟩ | ⟨hrun, hfetch, hnext⟩ | ⟨hrun, word, hfetch, hnext⟩
  · rw [hnext, step, hrun, if_pos rfl]
  · have hend : c.isPastEnd s.pc = true := by
      have := Array.getElem?_eq_none_iff.1 hfetch
      have := hs.pc
      rw [isPastEnd, decide_eq_true_eq]
      omega
    rw [hnext, step, hrun, if_neg Bool.false_ne_true, hc.performDue_eq]
    show c.instruction _ = _
    rw [instruction, hend, if_pos rfl]
  · obtain ⟨hlt, -⟩ := Array.getElem?_eq_some_iff.1 hfetch
    have hpc : s.pc = s.pc.toNat := (Int.toNat_of_nonneg hs.pc).symm
    rw [hnext, step_eq_execute hfetch (hc.performDue_eq s) hpc hrun]
    refine (execute_of_isSound (s := { s with
      data := c.dueStorage s, lastFetch := s.pc.toNat, ir := some word })
      (hs.data.withRam _) hrun word rfl hlt).trans ?_
    rw [← hpc]
    rfl

end Computer

open Computer

variable {c : Computer} {s : State}

/-- The next state is sound again. -/
theorem State.IsSound.next (hc : c.IsWellFormed) (hs : s.IsSound) : (c.next s).IsSound := by
  rcases c.next_cases s with ⟨-, hnext⟩ | ⟨-, -, hnext⟩ | ⟨-, word, hfetch, hnext⟩
  · rwa [hnext]
  · rw [hnext]
    exact ⟨hs.data.withRam _, hs.pc⟩
  · rw [hnext]
    refine ⟨(hs.data.withRam _).executed (hc.isWord_of_fetch hfetch), ?_⟩
    show 0 ≤ successor word s.pc (c.dueStorage s) _
    unfold successor
    split
    · exact hs.data.a.1
    · have := hs.pc
      omega

theorem State.IsSound.iterate_next (hc : c.IsWellFormed) (hs : s.IsSound) (n : Nat) :
    (c.next^[n] s).IsSound := by
  induction n with
  | zero => exact hs
  | succ n ih =>
    rw [Function.iterate_succ_apply']
    exact ih.next hc

namespace Computer

/-! ### Runs -/

/-- Any number of ticks is made without a fault. -/
theorem ticks_eq_iterate (hc : c.IsWellFormed) (hs : s.IsSound) (n : Nat) :
    c.ticks n s = .ok (c.next^[n] s) := by
  induction n generalizing s with
  | zero => rfl
  | succ n ih =>
    rw [ticks, step_eq_next hc hs]
    exact ih (hs.next hc)

/-- The states that a fresh machine comes to are sound. -/
theorem isSound_of_ticks (hc : c.IsWellFormed) {ramWords : Int} {n : Nat}
    (h : c.ticks n (State.fresh ramWords) = .ok s) : s.IsSound := by
  have hfresh := State.isSound_fresh ramWords
  rw [ticks_eq_iterate hc hfresh] at h
  injection h with h
  rw [← h]
  exact hfresh.iterate_next hc n

theorem isDone_iff : c.isDone s = true ↔ s.halted = true ∨ c.tickLimit ≤ s.tick := by
  rw [isDone, Bool.or_eq_true, decide_eq_true_eq]

theorem isDone_eq_false_iff : c.isDone s = false ↔ s.halted = false ∧ s.tick < c.tickLimit := by
  rw [isDone, Bool.or_eq_false_iff, decide_eq_false_iff_not, Int.not_le]

/-- The next state of a run, which stays where it has reached its end. -/
def advance (c : Computer) (s : State) : State :=
  if c.isDone s then s else c.next s

theorem iterate_advance_of_isDone (hdone : c.isDone s = true) (n : Nat) : c.advance^[n] s = s := by
  have hfixed : c.advance s = s := if_pos hdone
  exact Function.iterate_fixed hfixed n

theorem advance_of_not_isDone (hdone : c.isDone s = false) : c.advance s = c.next s :=
  if_neg (by rw [hdone]; exact Bool.false_ne_true)

/-- A run is made without a fault. -/
theorem runFor_eq_iterate (hc : c.IsWellFormed) (hs : s.IsSound) (n : Nat) :
    c.runFor n s = .ok (c.advance^[n] s) := by
  induction n generalizing s with
  | zero => rfl
  | succ n ih =>
    rw [runFor]
    cases hdone : c.isDone s with
    | true => rw [if_pos rfl, iterate_advance_of_isDone hdone]
    | false =>
      rw [if_neg Bool.false_ne_true, step_eq_next hc hs, Function.iterate_succ_apply,
        advance_of_not_isDone hdone]
      exact ih (hs.next hc)

/-! ### Cells beyond sixteen bits -/

variable {t : State}

/-- A jump that is made leaves registers and memory as they are. -/
theorem branch_eq_ok {jump : Nat} {target : Int} (h : c.branch jump target s = .ok t) :
    t.data = s.data ∧ t.tick = s.tick + 1 := by
  have hfinish {pc : Int} {s' : State} (h : Outcome.ok (c.finish pc s') = .ok t) :
      t.data = s'.data ∧ t.tick = s'.tick + 1 := by
    injection h with h
    rw [← h]
    exact ⟨rfl, rfl⟩
  unfold branch at h
  split at h
  · split at h
    · split at h
      · cases h
      · have hdata := hfinish h
        exact hdata
    · exact hfinish h
  · exact hfinish h

theorem execute_eq_ok {word : Int} (h : c.execute word s = .ok t) (ha : 0 ≤ s.data.a) :
    t.data = s.data.executed word ∧ t.tick = s.tick + 1 := by
  obtain ⟨data, pc, ir, tick, halted, lastFetch⟩ := s
  have ha : 0 ≤ data.a := ha
  unfold execute at h
  dsimp only at h
  by_cases hcompute : Word.isCompute word = true
  · rw [if_pos hcompute, Storage.compute_of_nonneg ha, Outcome.andThen,
      Storage.store_of_nonneg ha] at h
    rw [Storage.executed, if_pos hcompute]
    exact branch_eq_ok h
  · rw [if_neg hcompute] at h
    injection h with h
    rw [← h, Storage.executed, if_neg hcompute]
    exact ⟨rfl, rfl⟩

/-- As long as no write is due, a step writes no cell beyond those that `A` can point to. -/
theorem step_eq_ok (hwords : ∀ word ∈ c.rom, IsWord word)
    (hquiet : ∀ event ∈ c.schedule, event.tick < s.tick) (ha : IsWord s.data.a)
    (h : c.step s = .ok t) :
    IsWord t.data.a ∧ s.tick ≤ t.tick ∧
      ∀ i, 0x10000 ≤ i → t.data.ram.get i = s.data.ram.get i := by
  -- nothing happens to a halted machine, nor behind the end of the program
  have hsame {t : State} (hdata : t.data = s.data) (htick : t.tick = s.tick) :
      IsWord t.data.a ∧ s.tick ≤ t.tick ∧
        ∀ i, 0x10000 ≤ i → t.data.ram.get i = s.data.ram.get i := by
    rw [hdata, htick]
    exact ⟨ha, Int.le_refl _, fun _ _ => rfl⟩
  rw [step, performDue_of_quiet hquiet] at h
  split at h
  · injection h with h
    rw [← h]
    exact hsame rfl rfl
  · have h : c.instruction s = .ok t := h
    unfold instruction at h
    split at h
    · injection h with h
      rw [← h]
      exact hsame rfl rfl
    · dsimp only at h
      split at h
      · cases h
      · rename_i word hword
        obtain ⟨i, -, hi⟩ := Option.bind_eq_some_iff.1 hword
        obtain ⟨hdata, htick⟩ := execute_eq_ok h ha.1
        obtain ⟨ha', hfar⟩ := Storage.far_executed ha (hwords word (Array.mem_of_getElem? hi))
        rw [hdata, htick]
        refine ⟨ha', ?_, hfar⟩
        show s.tick ≤ s.tick + 1
        omega

/-- As long as no write is due, no cell is written beyond those that `A` can point to. -/
theorem get_of_reaches (hwords : ∀ word ∈ c.rom, IsWord word)
    (hquiet : ∀ event ∈ c.schedule, event.tick < s.tick) (ha : IsWord s.data.a)
    (h : c.Reaches s t) {i : Nat} (hi : 0x10000 ≤ i) : t.data.ram.get i = s.data.ram.get i := by
  obtain ⟨n, hn⟩ := h
  induction n generalizing s with
  | zero =>
    injection hn with hn
    rw [hn]
  | succ n ih =>
    rw [ticks] at hn
    cases hs : c.step s with
    | ok s' =>
      rw [hs] at hn
      obtain ⟨ha', htick, hfar⟩ := step_eq_ok hwords hquiet ha hs
      rw [ih (fun event hevent => Int.lt_of_lt_of_le (hquiet event hevent) htick) ha' hn,
        hfar i hi]
    | fault cause s' =>
      rw [hs] at hn
      cases hn

end Computer

end HackToolchain.Machine
