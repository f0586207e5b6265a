import HackToolchain.Proofs.Machine.Loading
import HackToolchain.Proofs.VM.Compilation

/-!
# The stack machine

What the instructions of the stack machine do to a memory of sixteen-bit values: pushes, pops and
operations on the stack that grows upwards from where `SP` points, jumps, calls and returns.

A pop into a segment has to remember its target while it takes the value off the stack, and a return
has to remember the frame and the return address.  `Scratch` says where: apart from the memory, as
the stack machine is meant, or in the scratch cells `R13` and `R14`, as its code does.

`Instruction.step` is one instruction.  It gives the address in the program memory at which the
machine goes on, and the memory.
-/

namespace HackToolchain

/-- The address of a register cell, as a value. -/
def Cell.slot (c : Cell) : Value :=
  BitVec.ofNat 16 c.address

theorem Cell.slot_injective {c c' : Cell} (h : c.slot = c'.slot) : c = c' := by
  revert h
  cases c <;> cases c' <;> decide

namespace Memory

/-- Puts a value into a cell. -/
def set (m : Memory) (x value : Value) : Memory :=
  Function.update m x value

/-- The content of a register cell. -/
def cell (m : Memory) (c : Cell) : Value :=
  m c.slot

/-- Puts a value into a register cell. -/
def setCell (m : Memory) (c : Cell) (value : Value) : Memory :=
  m.set c.slot value

/-- Puts a value on the stack. -/
def push (m : Memory) (value : Value) : Memory :=
  let m := m.set (m.cell .sp) value
  m.setCell .sp (m.cell .sp + 1)

/-- Takes the top off the stack. -/
def drop (m : Memory) : Memory :=
  m.setCell .sp (m.cell .sp - 1)

/-- The value that the stack pointer points to: the one that has just been taken off the stack. -/
def dropped (m : Memory) : Value :=
  m (m.cell .sp)

variable {m : Memory}

theorem set_apply (m : Memory) (x value y : Value) :
    m.set x value y = if y = x then value else m y :=
  Function.update_apply _ _ _ _

@[simp] theorem set_self (m : Memory) (x value : Value) : m.set x value x = value := by
  rw [set_apply, if_pos rfl]

theorem set_of_ne {x y : Value} (h : y ≠ x) (value : Value) : m.set x value y = m y := by
  rw [set_apply, if_neg h]

@[simp] theorem cell_setCell_self (m : Memory) (c : Cell) (value : Value) :
    (m.setCell c value).cell c = value :=
  set_self m c.slot value

theorem cell_setCell_of_ne {c c' : Cell} (h : c' ≠ c) (value : Value) :
    (m.setCell c value).cell c' = m.cell c' :=
  set_of_ne (fun heq => h (Cell.slot_injective heq)) value

theorem setCell_of_ne {c : Cell} {x : Value} (h : x ≠ c.slot) (value : Value) :
    m.setCell c value x = m x :=
  set_of_ne h value

theorem cell_set_of_ne {c : Cell} {x : Value} (h : c.slot ≠ x) (value : Value) :
    (m.set x value).cell c = m.cell c :=
  set_of_ne h value

@[simp] theorem cell_drop_sp (m : Memory) : m.drop.cell .sp = m.cell .sp - 1 :=
  cell_setCell_self m .sp _

end Memory

namespace VM

open Asm Machine

/-! ### Operations -/

namespace Operation

/-- The operation takes one value off the stack. -/
def isUnary : Operation → Bool
  | .neg | .not => true
  | _ => false

/-- The value of a condition. -/
def truth (condition : Bool) : Value :=
  if condition then 0xFFFF else 0

/-- The result of an operation on the value below the top, and the one on top. -/
def result (x y : Value) : Operation → Value
  | .add => x + y
  | .sub => x - y
  | .neg => -y
  | .eq => truth (x - y == 0)
  | .gt => truth (0 < (x - y).toInt)
  | .lt => truth ((x - y).toInt < 0)
  | .and => x &&& y
  | .or => x ||| y
  | .not => ~~~y

/-- Replaces the one or two values on top by the result. -/
def apply (op : Operation) (m : Memory) : Memory :=
  if op.isUnary then
    let top := m.cell .sp - 1
    m.set top (op.result (m top) (m top))
  else
    let m := m.drop
    let place := m.cell .sp - 1
    m.set place (op.result (m place) m.dropped)

end Operation

/-! ### Segments -/

/-- The address of a cell of a segment. -/
def Segment.location (address : String → Nat) (s : Scope) (index : Int) (m : Memory) :
    Segment → Value
  | .local => m.cell .lcl + BitVec.ofInt 16 index
  | .argument => m.cell .arg + BitVec.ofInt 16 index
  | .this => m.cell .this + BitVec.ofInt 16 index
  | .that => m.cell .that + BitVec.ofInt 16 index
  | .temp => BitVec.ofInt 16 (MemoryMap.tempBase + index)
  | .pointer => (if index = 0 then Cell.this else Cell.that).slot
  | .static | .constant => BitVec.ofNat 16 (address (s.staticSymbol index))

/-- The value to push from a segment. -/
def Segment.value (address : String → Nat) (s : Scope) (index : Int) (m : Memory) :
    Segment → Value
  | .constant => BitVec.ofInt 16 index
  | segment => m (segment.location address s index m)

/-! ### Scratch cells -/

/-- Where values are kept while an instruction is under way. -/
inductive Scratch where
  /-- Apart from the memory. -/
  | apart
  /-- In a scratch cell. -/
  | inMemory
  deriving DecidableEq, Repr

namespace Scratch

/-- Keeps a value for later. -/
def keep (mode : Scratch) (c : Cell) (value : Value) (m : Memory) : Memory :=
  match mode with
  | .apart => m
  | .inMemory => m.setCell c value

/-- Gives a value that has been kept. -/
def kept (mode : Scratch) (c : Cell) (value : Value) (m : Memory) : Value :=
  match mode with
  | .apart => value
  | .inMemory => m.cell c

end Scratch

/-! ### Instructions -/

/-- Pops into a cell. -/
def popTo (mode : Scratch) (target : Value) (m : Memory) : Memory :=
  let m := mode.keep .r13 target m
  let m := m.drop
  m.set (mode.kept .r13 target m) m.dropped

/-- Pushes a return address and the base cells. -/
def pushSaved (back : Value) (m : Memory) : Memory :=
  let m := m.push back
  let m := m.push (m.cell .lcl)
  let m := m.push (m.cell .arg)
  let m := m.push (m.cell .this)
  m.push (m.cell .that)

/-- Makes `ARG` point to the arguments below the frame on top of the stack, and `LCL` to the first
free cell. -/
def enter (arguments : Int) (m : Memory) : Memory :=
  let m := m.setCell .arg (m.cell .sp - BitVec.ofInt 16 (Code.frameCells + arguments))
  m.setCell .lcl (m.cell .sp)

/-- Pushes a frame with the given return address, below which there are arguments. -/
def pushFrame (back : Value) (arguments : Int) (m : Memory) : Memory :=
  enter arguments (pushSaved back m)

/-- Puts the top of the stack in the place of the first argument, and ends the stack right after
it. -/
def putResult (m : Memory) : Memory :=
  let m := m.drop
  let m := m.set (m.cell .arg) m.dropped
  m.setCell .sp (m.cell .arg + 1)

/-- Restores the base cells from the frame with the given end. -/
def restoreCells (mode : Scratch) (frame : Value) (m : Memory) : Memory :=
  let m := m.setCell .that (m (mode.kept .r13 frame m - 1))
  let m := m.setCell .this (m (mode.kept .r13 frame m - 2))
  let m := m.setCell .arg (m (mode.kept .r13 frame m - 3))
  m.setCell .lcl (m (mode.kept .r13 frame m - 4))

/-- Pops a frame: the return address, and the memory with the result in the place of the first
argument. -/
def popFrame (mode : Scratch) (m : Memory) : Value × Memory :=
  let frame := m.cell .lcl
  let m := mode.keep .r13 frame m
  let back := m (frame - 5)
  let m := restoreCells mode frame (putResult (mode.keep .r14 back m))
  (mode.kept .r14 back m, m)

/-- Pushes zeros. -/
def pushZeros (m : Memory) : Nat → Memory
  | 0 => m
  | n + 1 => pushZeros (m.push 0) n

/-- One instruction, behind which the program goes on at the address `next`: where the machine goes
on, and the memory. -/
def Instruction.step (mode : Scratch) (address : String → Nat) (s : Scope) (next : Nat)
    (m : Memory) : Instruction → Nat × Memory
  | .start =>
    let m := m.setCell .sp (BitVec.ofNat 16 MemoryMap.stackBase)
    (address Emitter.firstFunction, pushFrame (BitVec.ofNat 16 next) 0 m)
  | .operation op => (next, op.apply m)
  | .push segment index => (next, m.push (segment.value address s index m))
  | .pop segment index => (next, popTo mode (segment.location address s index m) m)
  | .label _ => (next, m)
  | .goto name => (address (s.qualify name), m)
  | .ifGoto name =>
    let m := m.drop
    (if m.dropped = 0 then next else address (s.qualify name), m)
  | .function _ locals => (next, pushZeros m locals.toNat)
  | .call name arguments => (address name, pushFrame (BitVec.ofNat 16 next) arguments m)
  | .ret =>
    let (back, m) := popFrame mode m
    (back.toNat, m)

/-! ### Programs -/

/-- The address of the first word of an instruction of a program. -/
def startOf (program : List Placed) (k : Nat) : Nat :=
  wordCount (codeOf (program.take k))

end VM

end HackToolchain
