import HackToolchain.Proofs.VM.BlockExecution

/-!
# The compiled program follows the stack machine

A run of the stack machine, in which nothing is kept in the memory but what belongs there, is
followed by the computer that executes the compiled program.  The memories agree up to the scratch
cells `R13` and `R14`, as long as no instruction relies on these (`Instruction.IsCareful`).

* `step_agrees`: an instruction does the same to memories that agree;
* `Built.executes_at`: the computer executes one instruction of a program;
* `computer_follows_run`: and so runs of any length.
-/

namespace HackToolchain

/-- The cells that the code of the stack machine uses for itself. -/
def Cell.IsScratch (x : Value) : Prop :=
  x = Cell.r13.slot ∨ x = Cell.r14.slot

instance : DecidablePred Cell.IsScratch :=
  fun _ => inferInstanceAs (Decidable (_ ∨ _))

/-- The memories have the same values in all cells but the scratch cells. -/
def Memory.Agrees (m m' : Memory) : Prop :=
  ∀ x, ¬ Cell.IsScratch x → m' x = m x

namespace Memory

variable {m m' : Memory}

theorem Agrees.refl (m : Memory) : m.Agrees m :=
  fun _ _ => rfl

theorem Agrees.cell (h : m.Agrees m') {c : Cell} (hc : ¬ Cell.IsScratch c.slot := by decide) :
    m'.cell c = m.cell c :=
  h c.slot hc

theorem Agrees.set (h : m.Agrees m') (x value : Value) :
    (m.set x value).Agrees (m'.set x value) := by
  intro y hy
  rw [Memory.set, Memory.set, Function.update_apply, Function.update_apply, h y hy]

theorem Agrees.setCell (h : m.Agrees m') (c : Cell) (value : Value) :
    (m.setCell c value).Agrees (m'.setCell c value) :=
  h.set c.slot value

/-- A scratch cell may be overwritten. -/
theorem Agrees.setCell_right (h : m.Agrees m') {c : Cell} (hc : Cell.IsScratch c.slot)
    (value : Value) : m.Agrees (m'.setCell c value) := by
  intro y hy
  rw [Memory.setCell, Memory.set, Function.update_apply, if_neg, h y hy]
  rintro rfl
  exact hy hc

theorem Agrees.push (h : m.Agrees m') (value : Value) : (m.push value).Agrees (m'.push value) := by
  have hset := h.set (m.cell .sp) value
  rw [Memory.push, Memory.push, h.cell, hset.cell]
  exact hset.setCell .sp _

theorem Agrees.drop (h : m.Agrees m') : m.drop.Agrees m'.drop := by
  rw [Memory.drop, Memory.drop, h.cell]
  exact h.setCell .sp _

theorem Agrees.dropped (h : m.Agrees m') (hsp : ¬ Cell.IsScratch (m.cell .sp)) :
    m'.dropped = m.dropped := by
  rw [Memory.dropped, Memory.dropped, h.cell, h _ hsp]

theorem Agrees.pushCell (h : m.Agrees m') (c : Cell)
    (hc : ¬ Cell.IsScratch c.slot := by decide) :
    (m.push (m.cell c)).Agrees (m'.push (m'.cell c)) := by
  rw [h.cell hc]
  exact h.push _

end Memory

namespace VM

open Asm Machine Code Files

variable {m m' : Memory} {s : Scope} {address : String → Nat} {i : Instruction}

theorem enter_agrees (h : m.Agrees m') (arguments : Int) :
    (enter arguments m).Agrees (enter arguments m') := by
  have harg := h.setCell .arg (m.cell .sp - BitVec.ofInt 16 (frameCells + arguments))
  unfold enter
  dsimp only
  rw [h.cell (c := .sp), harg.cell (c := .sp)]
  exact harg.setCell .lcl _

theorem pushFrame_agrees (h : m.Agrees m') (back : Value) (arguments : Int) :
    (pushFrame back arguments m).Agrees (pushFrame back arguments m') :=
  enter_agrees (((((h.push back).pushCell .lcl).pushCell .arg).pushCell .this).pushCell .that) _

theorem pushZeros_agrees (h : m.Agrees m') (n : Nat) :
    (pushZeros m n).Agrees (pushZeros m' n) := by
  induction n generalizing m m' with
  | zero => exact h
  | succ n ih => exact ih (h.push 0)

/-! ### Instructions that leave the scratch cells alone -/

/-- The cells whose content an instruction relies on, besides `SP` and the base cells, and the cell
in which a return puts the result while it still needs the frame. -/
def Instruction.relies (address : String → Nat) (s : Scope) (m : Memory) :
    Instruction → List Value
  | .operation op =>
    if op.isUnary then [m.cell .sp - 1] else [m.cell .sp - 1, m.cell .sp - 1 - 1]
  | .push .constant _ => []
  | .push segment index => [segment.location address s index m]
  | .pop .. | .ifGoto _ => [m.cell .sp - 1]
  | .ret =>
    [m.cell .lcl - 5, m.cell .sp - 1, m.cell .arg, m.cell .lcl - 1, m.cell .lcl - 2,
      m.cell .lcl - 3, m.cell .lcl - 4]
  | _ => []

/-- The instruction does not rely on the scratch cells. -/
def Instruction.IsCareful (address : String → Nat) (s : Scope) (m : Memory) (i : Instruction) :
    Prop :=
  ∀ x ∈ i.relies address s m, ¬ Cell.IsScratch x

theorem apply_agrees (h : m.Agrees m') {op : Operation}
    (hop : (Instruction.operation op).IsCareful address s m) :
    (op.apply m).Agrees (op.apply m') := by
  simp only [Instruction.IsCareful, Instruction.relies] at hop
  unfold Operation.apply
  by_cases hunary : op.isUnary = true
  · rw [if_pos hunary] at hop
    have htop := hop _ List.mem_cons_self
    rw [if_pos hunary, if_pos hunary]
    dsimp only
    rw [h.cell (c := .sp), h _ htop]
    exact h.set _ _
  · rw [if_neg hunary] at hop
    have htop : ¬ Cell.IsScratch (m.drop.cell .sp) := by
      rw [Memory.cell_drop_sp]
      exact hop _ (by simp)
    have hbelow : ¬ Cell.IsScratch (m.drop.cell .sp - 1) := by
      rw [Memory.cell_drop_sp]
      exact hop _ (by simp)
    rw [if_neg hunary, if_neg hunary]
    dsimp only
    rw [h.drop.cell (c := .sp), h.drop _ hbelow, h.drop.dropped htop]
    exact h.drop.set _ _

theorem location_agrees (h : m.Agrees m') (segment : Segment) (index : Int) :
    segment.location address s index m' = segment.location address s index m := by
  cases segment <;> simp only [Segment.location, h.cell (c := .lcl), h.cell (c := .arg),
    h.cell (c := .this), h.cell (c := .that)]

theorem value_agrees (h : m.Agrees m') {segment : Segment} {index : Int}
    (hcareful : (Instruction.push segment index).IsCareful address s m) :
    segment.value address s index m' = segment.value address s index m := by
  cases segment with
  | constant => rfl
  | _ =>
    simp only [Segment.value, location_agrees h]
    exact h _ (hcareful _ List.mem_cons_self)

theorem popTo_agrees (h : m.Agrees m') {target : Value} (hsp : ¬ Cell.IsScratch (m.cell .sp - 1)) :
    (popTo .apart target m).Agrees (popTo .inMemory target m') := by
  have hkeep := h.setCell_right (c := .r13) (.inl rfl) target
  have htarget : (m'.setCell .r13 target).drop.cell .r13 = target := by
    rw [Memory.drop, Memory.cell_setCell_of_ne (by decide), Memory.cell_setCell_self]
  rw [← Memory.cell_drop_sp] at hsp
  simp only [popTo, Scratch.keep, Scratch.kept, htarget, hkeep.drop.dropped hsp]
  exact hkeep.drop.set _ _

/-- Memories agree, and the second has values in its scratch cells. -/
structure KeepsFrame (frame back : Value) (m m' : Memory) : Prop where
  agrees : m.Agrees m'
  frame_eq : m'.cell .r13 = frame
  back_eq : m'.cell .r14 = back

theorem KeepsFrame.set {frame back : Value} (h : KeepsFrame frame back m m') {x : Value}
    (hx : ¬ Cell.IsScratch x) (value : Value) :
    KeepsFrame frame back (m.set x value) (m'.set x value) where
  agrees := h.agrees.set x value
  frame_eq := by rw [Memory.cell_set_of_ne fun heq => hx (.inl heq.symm), h.frame_eq]
  back_eq := by rw [Memory.cell_set_of_ne fun heq => hx (.inr heq.symm), h.back_eq]

theorem KeepsFrame.drop {frame back : Value} (h : KeepsFrame frame back m m') :
    KeepsFrame frame back m.drop m'.drop := by
  rw [Memory.drop, Memory.drop, h.agrees.cell]
  exact h.set (by decide) _

/-- A base cell is restored from the frame. -/
theorem KeepsFrame.restore {frame back : Value} (h : KeepsFrame frame back m m') (c : Cell)
    {offset : Value} (hoffset : ¬ Cell.IsScratch (frame - offset))
    (hc : ¬ Cell.IsScratch c.slot := by decide) :
    KeepsFrame frame back (m.setCell c (m (frame - offset)))
      (m'.setCell c (m' (m'.cell .r13 - offset))) := by
  rw [h.frame_eq, h.agrees _ hoffset]
  exact h.set hc _

theorem popFrame_agrees (h : m.Agrees m') (hret : Instruction.ret.IsCareful address s m) :
    (popFrame .inMemory m').1 = (popFrame .apart m).1 ∧
      (popFrame .apart m).2.Agrees (popFrame .inMemory m').2 := by
  simp only [Instruction.IsCareful, Instruction.relies, List.mem_cons, List.not_mem_nil, or_false,
    forall_eq_or_imp, forall_eq] at hret
  obtain ⟨hback, hsp, harg, h1, h2, h3, h4⟩ := hret
  -- the scratch cells are written first, and no cell that the return relies on is one of them
  have hkept : KeepsFrame (m.cell .lcl) (m (m.cell .lcl - 5)) m
      ((m'.setCell .r13 (m.cell .lcl)).setCell .r14 (m (m.cell .lcl - 5))) := by
    refine ⟨(h.setCell_right (.inl rfl) _).setCell_right (.inr rfl) _, ?_, ?_⟩
    · rw [Memory.cell_setCell_of_ne (by decide), Memory.cell_setCell_self]
    · exact Memory.cell_setCell_self _ _ _
  have hdrop := hkept.drop
  have hresult := hdrop.set (x := m.drop.cell .arg)
    (by rwa [Memory.drop, Memory.cell_setCell_of_ne (by decide)]) m.drop.dropped
  have hstack := hresult.set (x := Cell.sp.slot) (by decide)
    ((m.drop.set (m.drop.cell .arg) m.drop.dropped).cell .arg + 1)
  have hframe := (((hstack.restore .that h1).restore .this h2).restore .arg h3).restore .lcl h4
  have hlink : m'.setCell .r13 (m.cell .lcl) (m.cell .lcl - 5) = m (m.cell .lcl - 5) :=
    h.setCell_right (.inl rfl) _ _ hback
  have hdropped : ((m'.setCell .r13 (m.cell .lcl)).setCell .r14
      (m (m.cell .lcl - 5))).drop.dropped = m.drop.dropped :=
    hdrop.agrees.dropped (by rwa [Memory.cell_drop_sp])
  simp only [popFrame, restoreCells, putResult, Scratch.keep, Scratch.kept, h.cell (c := .lcl),
    hlink, hdropped,
    hdrop.agrees.cell (c := .arg), hresult.agrees.cell (c := .arg)]
  exact ⟨hframe.back_eq, hframe.agrees⟩

/-- An instruction goes on at the same address, and does the same to memories that agree. -/
theorem step_agrees (h : m.Agrees m') (hi : i.IsCareful address s m) (next : Nat) :
    (i.step .inMemory address s next m').1 = (i.step .apart address s next m).1 ∧
      (i.step .apart address s next m).2.Agrees (i.step .inMemory address s next m').2 := by
  cases i with
  | start => exact ⟨rfl, pushFrame_agrees (h.setCell .sp _) _ _⟩
  | operation op => exact ⟨rfl, apply_agrees h hi⟩
  | push segment index =>
    refine ⟨rfl, ?_⟩
    simp only [Instruction.step, value_agrees h hi]
    exact h.push _
  | pop segment index =>
    refine ⟨rfl, ?_⟩
    simp only [Instruction.step, location_agrees h]
    exact popTo_agrees h (hi _ List.mem_cons_self)
  | label name => exact ⟨rfl, h⟩
  | goto name => exact ⟨rfl, h⟩
  | ifGoto name =>
    have hsp : ¬ Cell.IsScratch (m.drop.cell .sp) := by
      rw [Memory.cell_drop_sp]
      exact hi _ List.mem_cons_self
    simp only [Instruction.step, h.drop.dropped hsp]
    exact ⟨trivial, h.drop⟩
  | function name locals => exact ⟨rfl, pushZeros_agrees h _⟩
  | call name arguments => exact ⟨rfl, pushFrame_agrees h _ _⟩
  | ret =>
    obtain ⟨hback, hm⟩ := popFrame_agrees h hi
    simp only [Instruction.step, hback]
    exact ⟨trivial, hm⟩

/-- The memory of the stack machine is that of the computer, up to the scratch cells if it keeps
values apart from the memory. -/
def Scratch.Shows (mode : Scratch) (m m' : Memory) : Prop :=
  match mode with
  | .apart => m.Agrees m'
  | .inMemory => m' = m

/-- The instruction may be executed in a mode: if values are kept apart from the memory, it must not
rely on the scratch cells. -/
def Instruction.IsAllowed (mode : Scratch) (address : String → Nat) (s : Scope) (m : Memory)
    (i : Instruction) : Prop :=
  mode = .apart → i.IsCareful address s m

/-- What an instruction does in either mode shows in what its code does. -/
theorem step_shows {mode : Scratch} (h : mode.Shows m m') (hi : i.IsAllowed mode address s m)
    (next : Nat) :
    (i.step .inMemory address s next m').1 = (i.step mode address s next m).1 ∧
      mode.Shows (i.step mode address s next m).2 (i.step .inMemory address s next m').2 := by
  cases mode with
  | apart => exact step_agrees h (hi rfl) next
  | inMemory =>
    have h : m' = m := h
    subst h
    exact ⟨rfl, rfl⟩

/-! ### One instruction of a program -/

section Program

variable {mode : Scratch} {program : List Placed} {text : List String} {words : Array Int}
  {c : Computer} {k pc : Nat} {st : State}

/-- An instruction depends on the addresses of its target and its static variable alone. -/
theorem step_congr {address' : String → Nat} (hi : i.IsLegal)
    (htarget : ∀ name ∈ i.target? s, address name = address' name)
    (hstatic : ∀ name ∈ i.static? s, address name = address' name) (mode : Scratch) (next : Nat)
    (m : Memory) : i.step mode address s next m = i.step mode address' s next m := by
  cases i with
  | start | call | goto | ifGoto =>
    simp only [Instruction.step, htarget _ (Option.mem_def.2 rfl)]
  | push segment index =>
    cases segment with
    | static =>
      simp only [Instruction.step, Segment.value, Segment.location,
        hstatic _ (Option.mem_def.2 rfl)]
    | _ => rfl
  | pop segment index =>
    cases segment with
    | constant => exact absurd rfl (hi index)
    | static =>
      simp only [Instruction.step, Segment.location, hstatic _ (Option.mem_def.2 rfl)]
    | _ => rfl
  | _ => rfl

/-- The addresses are those at which the assembler has put the targets and the static variables of a
program. -/
def IsAddressing (address : String → Nat) (program : List Placed) : Prop :=
  ∀ p ∈ program, ∀ name,
    name ∈ p.instruction.target? p.scope ∨ name ∈ p.instruction.static? p.scope →
    (Layout.ofCode (codeOf program)).address name = address name

theorem isAddressing_ofCode (program : List Placed) :
    IsAddressing (Layout.ofCode (codeOf program)).address program :=
  fun _ _ _ _ => rfl

/-- The addresses can be told from the program, if all targets of jumps are labels and no static
variable is one. -/
theorem Built.isAddressing_addressIn (hb : Built program text words)
    (htargets : TargetsAreDeclared program text) (hstatics : StaticsAreVariables program text) :
    IsAddressing (addressIn program) program := by
  rintro p hp name (hname | hname)
  · exact hb.address_label (htargets p hp name hname)
  · exact hb.address_static htargets hstatics hp hname

/-- The computer executes an instruction of a program that is loaded. -/
theorem Built.executes_at (hb : Built program text c.rom) (hsize : c.rom.size < 0x8000)
    (haddress : IsAddressing address program) {p : Placed} (hp : program[k]? = some p)
    (hself : ∀ name ∈ p.instruction.callee?, address name + 2 ≠ startOf program (k + 1))
    (hat : c.At (startOf program k) st) :
    let out := p.instruction.step .inMemory address p.scope (startOf program (k + 1))
      st.data.ram.memory
    ∃ st', c.Reaches st st' ∧
      Finishes c p.instruction (startOf program k) out.1 out.2 st' := by
  have hmem : p ∈ program := List.mem_of_getElem? hp
  have hlegal : p.instruction.IsLegal := (hb.isWellFormed p hmem).isLegal
  rw [← step_congr hlegal (fun name hname => haddress p hmem name (.inl hname))
    (fun name hname => haddress p hmem name (.inr hname))]
  rw [startOf_succ hp] at hself ⊢
  refine executes (loaded_at (hb.loaded c rfl) hp) hlegal hsize (fun name hname => ?_) hat
  rw [haddress p hmem name (.inl (Instruction.mem_target?_of_mem_callee? hname))]
  exact hself name hname

/-! ### Runs -/

/-- The program is at a jump to itself. -/
def Idles (address : String → Nat) (program : List Placed) (pc : Nat) : Prop :=
  ∃ k p name, program[k]? = some p ∧ p.instruction = .goto name ∧ startOf program k = pc ∧
    address (p.scope.qualify name) = pc

/-- The computer is at an address, where it goes on unless the program ends or idles there, and
shows the given memory. -/
structure Stands (address : String → Nat) (mode : Scratch) (c : Computer) (program : List Placed)
    (pc : Nat) (m : Memory) (st : State) : Prop where
  /-- The computer is at the address, and no write is due any more. -/
  arrives : c.Arrives pc st
  /-- It shows the memory. -/
  shows_memory : mode.Shows m st.data.ram.memory
  /-- It goes on. -/
  running : st.halted = true → c.rom.size ≤ pc ∨ Idles address program pc

/-- One instruction of a program takes the stack machine from the instruction `k` and a memory to an
address and a memory. -/
def StepsTo (address : String → Nat) (mode : Scratch) (program : List Placed) (k : Nat) (m : Memory)
    (pc : Nat) (m' : Memory) : Prop :=
  ∃ p, program[k]? = some p ∧ p.instruction.IsAllowed mode address p.scope m ∧
    p.instruction.step mode address p.scope (startOf program (k + 1)) m = (pc, m')

/-- Runs of the stack machine, instruction by instruction. -/
inductive Runs (address : String → Nat) (mode : Scratch) (program : List Placed) :
    Nat → Memory → Nat → Memory → Prop where
  /-- One instruction. -/
  | single {k pc : Nat} {m m' : Memory} (hstep : StepsTo address mode program k m pc m') :
      Runs address mode program k m pc m'
  /-- One instruction, and a run from an instruction that begins where it goes on. -/
  | cons {k k' pc : Nat} {m m' m'' : Memory}
      (hstep : StepsTo address mode program k m (startOf program k') m')
      (hrest : Runs address mode program k' m' pc m'') : Runs address mode program k m pc m''

theorem wordCount_pushZeros (n : Nat) :
    wordCount (List.replicate n pushZero).flatten = 5 * n := by
  induction n with
  | zero => rfl
  | succ n ih =>
    have hzero : wordCount pushZero = 5 := rfl
    rw [List.replicate_succ, List.flatten_cons, wordCount_append, ih]
    omega

/-- An instruction without words does nothing. -/
theorem step_of_wordCount_eq_zero (h : wordCount (i.code s) = 0) (mode : Scratch) (next : Nat)
    (m : Memory) : i.step mode address s next m = (next, m) := by
  have hne {x : Statement} {code : List Statement} (hx : x.isInstruction = true)
      (hcode : wordCount (x :: code) = 0) : False := by
    rw [wordCount, List.countP_cons_of_pos hx] at hcode
    omega
  cases i with
  | label name => rfl
  | function name locals =>
    rw [Instruction.code, wordCount_label, wordCount_pushZeros] at h
    have hzero : locals.toNat = 0 := by omega
    rw [Instruction.step, hzero]
    rfl
  | operation op => cases op <;> exact (hne rfl h).elim
  | push segment index => cases segment <;> exact (hne rfl h).elim
  | pop segment index => cases segment <;> exact (hne rfl h).elim
  | _ => exact (hne rfl h).elim

/-- Where the program idles, nothing stands but the jump to itself, and instructions without
words. -/
theorem Idles.eq_goto {p : Placed} (hidle : Idles address program (startOf program k))
    (hp : program[k]? = some p) :
    wordCount p.code = 0 ∨
      ∃ name, p.instruction = .goto name ∧ address (p.scope.qualify name) = startOf program k := by
  obtain ⟨j, q, name, hq, hgoto, hplace, htarget⟩ := hidle
  have hnext := startOf_succ hq
  have htwo : wordCount q.code = 2 := by
    rw [Placed.code, hgoto]
    rfl
  rcases Nat.lt_trichotomy k j with hlt | rfl | hgt
  · have hmono : startOf program (k + 1) ≤ startOf program j := startOf_mono program hlt
    have hsucc := startOf_succ hp
    exact .inl (by omega)
  · rw [hp] at hq
    injection hq with hq
    subst hq
    exact .inr ⟨name, hgoto, htarget⟩
  · have hmono : startOf program (j + 1) ≤ startOf program k := startOf_mono program hgt
    omega

/-- Where the program idles, the stack machine goes on without a change. -/
theorem StepsTo.eq_of_idles {m' : Memory} (hidle : Idles address program (startOf program k))
    (h : StepsTo address mode program k m pc m') : pc = startOf program k ∧ m' = m := by
  obtain ⟨p, hp, -, hstep⟩ := h
  rcases hidle.eq_goto hp with hzero | ⟨name, hgoto, htarget⟩
  · rw [step_of_wordCount_eq_zero hzero, startOf_succ hp, hzero] at hstep
    injection hstep with hpc hm
    exact ⟨hpc.symm, hm.symm⟩
  · rw [hgoto] at hstep
    injection hstep with hpc hm
    exact ⟨by rw [← hpc, htarget], hm.symm⟩

/-- The computer follows the stack machine in one instruction, unless this is a call to the place
where it loads the address of its function. -/
theorem Built.follows_step (hb : Built program text c.rom) (hsize : c.rom.size < 0x8000)
    (haddress : IsAddressing address program)
    (hself : ∀ p, program[k]? = some p → ∀ name ∈ p.instruction.callee?,
      address name + 2 ≠ startOf program (k + 1)) {m' : Memory}
    (hst : Stands address mode c program (startOf program k) m st)
    (hstep : StepsTo address mode program k m pc m') :
    ∃ st', c.Reaches st st' ∧ Stands address mode c program pc m' st' := by
  -- a machine that can go on does so; one that idles stays where it is, as the run does
  have hrun (hat : c.At (startOf program k) st) :
      ∃ st', c.Reaches st st' ∧ Stands address mode c program pc m' st' := by
    obtain ⟨p, hp, hallowed, hout⟩ := hstep
    obtain ⟨st', hreach, hfinish⟩ := hb.executes_at hsize haddress hp (hself p hp) hat
    obtain ⟨hpc, hm⟩ := step_shows hst.shows_memory hallowed (startOf program (k + 1))
    rw [hout] at hpc hm
    rw [hpc] at hfinish
    refine ⟨st', hreach, hfinish.arrives, hfinish.memory ▸ hm, fun hhalt => ?_⟩
    rcases hfinish.running with hat' | ⟨hplace, name, hgoto⟩
    · exact .inl (hat'.running hhalt)
    · refine .inr ⟨k, p, name, hp, hgoto, hplace.symm, ?_⟩
      rw [hgoto] at hout
      injection hout
  by_cases hhalt : st.halted = true
  · rcases hst.running hhalt with hend | hidle
    · exact hrun ⟨hst.arrives, fun _ => hend⟩
    · obtain ⟨rfl, rfl⟩ := hstep.eq_of_idles hidle
      exact ⟨st, .refl st, hst⟩
  · exact hrun ⟨hst.arrives, fun h => absurd h hhalt⟩

/-- The computer follows the stack machine in runs of any length. -/
theorem Built.follows_run (hb : Built program text c.rom) (hsize : c.rom.size < 0x8000)
    (haddress : IsAddressing address program)
    (hself : ∀ k p, program[k]? = some p → ∀ name ∈ p.instruction.callee?,
      address name + 2 ≠ startOf program (k + 1)) {m' : Memory}
    (hst : Stands address mode c program (startOf program k) m st)
    (hrun : Runs address mode program k m pc m') :
    ∃ st', c.Reaches st st' ∧ Stands address mode c program pc m' st' := by
  induction hrun generalizing st with
  | single hstep => exact hb.follows_step hsize haddress (hself _) hst hstep
  | cons hstep hrest ih =>
    obtain ⟨t, hreach, ht⟩ := hb.follows_step hsize haddress (hself _) hst hstep
    obtain ⟨st', hreach', hst'⟩ := ih ht
    exact ⟨st', hreach.trans hreach', hst'⟩

/-- No call goes to the place where it loads the address of its function, if all targets of jumps
are labels. -/
theorem Built.callee_ne (hb : Built program text c.rom) (haddress : IsAddressing address program)
    (htargets : TargetsAreDeclared program text) {p : Placed} (hp : program[k]? = some p)
    {name : String} (hname : name ∈ p.instruction.callee?) :
    address name + 2 ≠ startOf program (k + 1) := by
  have hmem : p ∈ program := List.mem_of_getElem? hp
  have htarget := Instruction.mem_target?_of_mem_callee? (s := p.scope) hname
  have hlabel := htargets p hmem name htarget
  rw [hb.declaredIn_eq] at hlabel
  rw [← haddress p hmem name (.inl htarget), startOf_succ hp]
  exact address_ne_of_callee (hb.loaded c rfl) hp hname hlabel

end Program

/-- The computer that runs a compiled program follows the stack machine, block by block and in runs
of any length, if its program memory is not too large, all targets of jumps are labels, and no
static variable is one.  If the stack machine keeps values in the scratch cells, then the computer
has its memory, and otherwise the memories agree up to the scratch cells. -/
theorem computer_follows_run {files : List SourceFile} {bootstrap comments : Bool}
    {text : List String} {words : Array Int} (hpaths : PathsAreProper files)
    (hcompile : compile files bootstrap comments = .ok text)
    (hassemble : assemble text = .ok words) (hsize : words.size ≤ 32767)
    (htargets : TargetsAreDeclared (programOf files bootstrap) text)
    (hstatics : StaticsAreVariables (programOf files bootstrap) text)
    {c : Computer} (hrom : c.rom = words) {mode : Scratch} {k pc : Nat} {m m' : Memory} {st : State}
    (harrives : c.Arrives (startOf (programOf files bootstrap) k) st) (hhalted : st.halted = false)
    (hmemory : mode.Shows m st.data.ram.memory)
    (hrun : Runs (addressIn (programOf files bootstrap)) mode (programOf files bootstrap) k m
      pc m') :
    ∃ st', c.Reaches st st' ∧
      Stands (addressIn (programOf files bootstrap)) mode c (programOf files bootstrap) pc m'
        st' := by
  subst hrom
  have hlt : c.rom.size < 0x8000 := Nat.lt_succ_of_le hsize
  have hb := built_of_compile hpaths hcompile hassemble hlt
  have haddress := hb.isAddressing_addressIn htargets hstatics
  refine hb.follows_run hlt haddress (fun k p hp name hname => ?_)
    ⟨harrives, hmemory, fun h => ?_⟩ hrun
  · exact hb.callee_ne haddress htargets hp hname
  · rw [hhalted] at h
    contradiction

/-- A unit that stores a constant in a static variable. -/
def storeUnit : SourceFile where
  path := Path.ofText "A.vm"
  bytes := "push constant 7\npop static 0\n".toUTF8

/-- The lines of its code. -/
def storeText : List String :=
  ["@7", "D=A", "@SP", "A=M", "M=D", "@SP", "M=M+1", "@A.0", "D=A", "@R13", "M=D", "@SP", "AM=M-1",
    "D=M", "@R13", "A=M", "M=D"]

/-- The words of its code. -/
def storeWords : Array Int :=
  #[7, 60432, 0, 64544, 58120, 0, 64968, 16, 60432, 13, 58120, 0, 64680, 64528, 13, 64544, 58120]

/-- A computer that runs it, with an empty stack. -/
def storeStart : State where
  data := { ram := ⟨#[256], by decide⟩ }

theorem computer_follows_store :
    let m := storeStart.data.ram.memory.push 7
    ∃ st', Computer.Reaches { rom := storeWords } storeStart st' ∧
      Stands (addressIn (programOf [storeUnit] false)) .apart { rom := storeWords }
        (programOf [storeUnit] false)
        (startOf (programOf [storeUnit] false) 2) (popTo .apart 16 m) st' := by
  intro m
  have hcompile : compile [storeUnit] false false = .ok storeText :=
    Except.toOption_eq_some (by decide +kernel)
  have hassemble : assemble storeText = .ok storeWords :=
    Except.toOption_eq_some (by decide +kernel)
  have hpaths : PathsAreProper [storeUnit] := by
    unfold PathsAreProper
    decide +kernel
  have htargets : TargetsAreDeclared (programOf [storeUnit] false) storeText := by
    unfold TargetsAreDeclared
    decide +kernel
  have hstatics : StaticsAreVariables (programOf [storeUnit] false) storeText := by
    unfold StaticsAreVariables
    decide +kernel
  have hpush : StepsTo (addressIn (programOf [storeUnit] false)) .apart
      (programOf [storeUnit] false) 0 storeStart.data.ram.memory
      (startOf (programOf [storeUnit] false) 1) m := by
    refine ⟨⟨{ unitName := "A" }, .push .constant 7⟩, by decide +kernel, ?_, rfl⟩
    exact fun _ _ hx => absurd hx List.not_mem_nil
  have hpop : StepsTo (addressIn (programOf [storeUnit] false)) .apart
      (programOf [storeUnit] false) 1 m (startOf (programOf [storeUnit] false) 2)
      (popTo .apart 16 m) := by
    have hcell : addressIn (programOf [storeUnit] false)
        (Scope.staticSymbol { unitName := "A" } 0) = 16 := by
      decide +kernel
    refine ⟨⟨{ unitName := "A" }, .pop .static 0⟩, by decide +kernel, fun _ => ?_, ?_⟩
    · have htop : ¬ Cell.IsScratch (m.cell .sp - 1) := by decide +kernel
      exact fun x hx => List.mem_singleton.1 hx ▸ htop
    · simp only [Instruction.step, Segment.location, hcell]
      rfl
  exact computer_follows_run hpaths hcompile hassemble (by decide) htargets hstatics rfl (k := 0)
    ⟨rfl, fun _ h => absurd h List.not_mem_nil⟩ rfl (Memory.Agrees.refl _)
    (.cons hpush (.single hpop))

end VM

end HackToolchain
