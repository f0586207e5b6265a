import HackToolchain.Machine.Storage

/-!
# The processor

One instruction per tick.  Before each instruction the writes scheduled for the tick happen.

The machine halts when the program counter leaves the program, and also on the idle loop, which is
a jump to the instruction just before it that loads its own address, unless a write is still to
come.  What the jump computes does not count.  A run ends when the machine has halted or the tick
limit is reached.
-/

namespace HackToolchain.Machine

open HackToolchain.Asm

/-- A computer: what stays the same during a run. -/
structure Computer where
  /-- The program. -/
  rom : Array Int
  /-- The scheduled writes. -/
  schedule : Schedule := []
  /-- The tick at which a run ends. -/
  tickLimit : Int := 100000
  deriving Repr

/-- The state of the processor. -/
structure State where
  /-- The registers and the memory. -/
  data : Storage
  /-- The program counter. -/
  pc : Int := 0
  /-- The last instruction fetched. -/
  ir : Option Int := none
  /-- The number of ticks that have passed. -/
  tick : Int := 0
  /-- The machine has halted. -/
  halted : Bool := false
  /-- The address of the last instruction fetched. -/
  lastFetch : Int := 0
  deriving DecidableEq, Repr

/-- A fresh state, with a memory of the given number of cells. -/
def State.fresh (ramWords : Int) : State where
  data := Storage.fresh ramWords

/-- A fresh state, unless so many cells cannot be had. -/
def State.allocate (ramWords : Int) : Except CapacityError State := do
  checkCapacity .index ramWords
  return State.fresh ramWords

/-- A jump is taken, under the flags of the last result. -/
def takesJump (jump : Nat) (zr ng : Bool) : Bool :=
  (jump.testBit 2 && ng) || (jump.testBit 1 && zr) || (jump.testBit 0 && !ng && !zr)

namespace Computer

/-- The program word at an address. -/
def fetch? (c : Computer) (address : Int) : Option Int :=
  (place? c.rom.size address).bind fun i => c.rom[i]?

/-- The program counter has left the program. -/
def isPastEnd (c : Computer) (pc : Int) : Bool :=
  (c.rom.size : Int) ≤ pc

/-- The jump at `lastFetch` to `target` closes an idle loop, and no write is to come after
`tick`. -/
def closesIdleLoop (c : Computer) (target lastFetch tick : Int) : Except Fault Bool :=
  if target = lastFetch - 1 then
    match c.fetch? target with
    | none => .error (.romRead target)
    | some word => .ok (word == target && !c.schedule.hasLater tick)
  else .ok false

/-- Ends an instruction that leaves the program counter at `pc`. -/
def finish (c : Computer) (pc : Int) (s : State) : State :=
  { s with pc := pc, halted := s.halted || c.isPastEnd pc, tick := s.tick + 1 }

/-- Goes on at the next instruction, or at `target` if the jump of the instruction is taken. -/
def branch (c : Computer) (jump : Nat) (target : Int) (s : State) : Outcome State :=
  if takesJump jump s.data.zr s.data.ng then
    -- only a jump that is always taken can close an idle loop
    if jump = 7 then
      match c.closesIdleLoop target s.lastFetch s.tick with
      | .error cause => .fault cause s
      | .ok idle => .ok (c.finish target { s with halted := s.halted || idle })
    else .ok (c.finish target s)
  else
    let pc := s.pc + 1
    .ok (c.finish pc s)

/-- Executes an instruction that has been fetched. -/
def execute (c : Computer) (word : Int) : State → Outcome State
  | ⟨data, pc, ir, tick, halted, lastFetch⟩ =>
    if Word.isCompute word then
      -- memory is written and the jump is taken at the address that `A` held before
      let target := data.a
      let computed := data.compute (Word.code word)
      let stored := computed.andThen (Storage.store (Word.dest word) target)
      (stored.map fun data => State.mk data pc ir tick halted lastFetch).andThen
        (c.branch (Word.jump word) target)
    else .ok (c.finish (pc + 1) ⟨{ data with a := word }, pc, ir, tick, halted, lastFetch⟩)

/-- Fetches and executes the instruction at the program counter. -/
def instruction (c : Computer) (s : State) : Outcome State :=
  if c.isPastEnd s.pc then .ok { s with halted := true }
  else
    let pc := s.pc
    match c.fetch? pc with
    | none => .fault (.romRead pc) { s with lastFetch := pc }
    | some word => c.execute word { s with lastFetch := pc, ir := some word }

/-- Performs the writes scheduled for the tick. -/
def performDue (c : Computer) : State → Outcome State
  | ⟨data, pc, ir, tick, halted, lastFetch⟩ =>
    (data.perform (c.schedule.due tick)).map fun data => ⟨data, pc, ir, tick, halted, lastFetch⟩

/-- One tick. -/
def step (c : Computer) (s : State) : Outcome State :=
  if s.halted then .ok s else (c.performDue s).andThen c.instruction

/-- A run has reached its end. -/
def isDone (c : Computer) (s : State) : Bool :=
  s.halted || c.tickLimit ≤ s.tick

/-- At most `n` ticks. -/
def runFor (c : Computer) : Nat → State → Outcome State
  | 0, s => .ok s
  | n + 1, s =>
    if c.isDone s then .ok s
    else
      match c.step s with
      | .ok s => runFor c n s
      | .fault cause s => .fault cause s

/-- The number of ticks until the limit. -/
def ticksLeft (c : Computer) (s : State) : Nat :=
  (c.tickLimit - s.tick).toNat

/-- A run.  Every step advances the tick or halts, so that no more steps are needed than ticks are
left. -/
def run (c : Computer) (s : State) : Outcome State :=
  c.runFor (c.ticksLeft s) s

end Computer

end HackToolchain.Machine
