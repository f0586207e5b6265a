import HackToolchain.Machine.Ram
import HackToolchain.Machine.Schedule

/-!
# Storage and the arithmetic unit

What instructions work on: the two registers, the last result with its two flags, and the memory.

The arithmetic unit takes two operands and six control bits.  Each operand may be cleared and then
complemented; then the operands are added or joined bit by bit, and the result may be complemented.
Complements and sums are words of sixteen bits.  Operands are integers of any size, because a
program word may be; a conjunction of two of them is taken in two's complement of unlimited width.
-/

namespace HackToolchain.Machine

open HackToolchain.Asm

/-! ### The arithmetic unit -/

/-- The bitwise conjunction of two integers in two's complement. -/
def conjunction : Int → Int → Int
  | .ofNat x, .ofNat y => ((x &&& y : Nat) : Int)
  | .ofNat x, .negSucc y => ((x - (x &&& y) : Nat) : Int)
  | .negSucc x, .ofNat y => ((y - (y &&& x) : Nat) : Int)
  | .negSucc x, .negSucc y => .negSucc (x ||| y)

/-- The complement of the last sixteen bits of an integer. -/
def complement (x : Int) : Int :=
  (-x - 1) % 0x10000

/-- An operand after it may have been cleared and then complemented. -/
def prepare (clear flip : Bool) (x : Int) : Int :=
  let x := if clear then 0 else x
  if flip then complement x else x

/-- The result of the arithmetic unit under six control bits. -/
def arithmetic (control : Nat) (x y : Int) : Int :=
  let x := prepare (control.testBit 5) (control.testBit 4) x
  let y := prepare (control.testBit 3) (control.testBit 2) y
  let out := if control.testBit 1 then (x + y) % 0x10000 else conjunction x y
  if control.testBit 0 then complement out else out

/-! ### Registers and memory -/

/-- The contents of the registers, the flags and the memory. -/
structure Storage where
  /-- The address register. -/
  a : Int := 0
  /-- The data register. -/
  d : Int := 0
  /-- The last result of the arithmetic unit. -/
  out : Int := 0
  /-- The last result is zero. -/
  zr : Bool := true
  /-- The last result is negative as a word. -/
  ng : Bool := false
  /-- The memory. -/
  ram : Ram
  deriving DecidableEq, Repr

namespace Storage

/-- Fresh storage, with a memory of the given number of cells. -/
def fresh (ramWords : Int) : Storage where
  ram := Ram.zeros ramWords

/-- Reads a cell, which grows the memory up to it. -/
def read (address : Int) (data : Storage) : Except Fault Int × Storage :=
  match data.ram.locate address with
  | none => (.error (.ramRead address), data)
  | some i => (.ok (data.ram.get i), { data with ram := data.ram.grow i })

/-- Writes a cell, which grows the memory up to it. -/
def write (address value : Int) (data : Storage) : Outcome Storage :=
  match data.ram.locate address with
  | none => .fault (.ramWrite address) data
  | some i => .ok { data with ram := data.ram.put i value }

/-- Performs some scheduled writes, in order. -/
def perform : List Event → Storage → Outcome Storage
  | [], data => .ok data
  | event :: events, data =>
    match data.write event.address event.value with
    | .ok data => perform events data
    | .fault cause data => .fault cause data

/-- Sets the result and the flags. -/
def setResult (out : Int) (data : Storage) : Storage :=
  { data with out := out, zr := out == 0, ng := out / 0x8000 % 2 == 1 }

/-- Runs the arithmetic unit with the code of a computation, on `D` and on the second operand that
the code selects. -/
def compute (code : Nat) (data : Storage) : Outcome Storage :=
  if code.testBit 6 then
    match data.ram.locate data.a with
    | none => .fault (.ramRead data.a) data
    | some i =>
      let y : Int := data.ram.get i
      .ok ({ data with ram := data.ram.grow i }.setResult (arithmetic code data.d y))
  else .ok (data.setResult (arithmetic code data.d data.a))

/-- Puts the last result into the registers of a destination field; memory is written first, at the
address given, and nothing else is done if it cannot be. -/
def store (dest : Nat) (address : Int) (data : Storage) : Outcome Storage :=
  let out := data.out
  let written := if dest.testBit 0 then data.write address out else .ok data
  written.andThen fun data =>
    let data := if dest.testBit 1 then { data with d := out } else data
    .ok (if dest.testBit 2 then { data with a := out } else data)

end Storage

end HackToolchain.Machine
