import HackToolchain.Asm.Error
import HackToolchain.Asm.Statement
import HackToolchain.MemoryMap
import HackToolchain.Text.Radix

/-!
# Instruction words

The form in which the machine holds an instruction.  Bit 15 tells the two kinds apart.  If it is
clear the word is the address to load.  If it is set the word is a computation: the bits 12 to 6
are its code, the bits 5 to 3 its destinations, and the bits 2 to 0 its jump.

Words are integers of any size.  All functions here depend on single bits of them, in two's
complement of unlimited width, so that a word is the same as its last sixteen bits wherever a
computation is read.
-/

namespace HackToolchain.Asm

open HackToolchain.Text

/-- The parts of a computation as texts that are none. -/
inductive FieldError where
  /-- There is no such computation. -/
  | comp (text : String)
  /-- There are no such registers. -/
  | dest (text : String)
  /-- There is no such jump. -/
  | jump (text : String)
  deriving DecidableEq, Repr

/-- The message of an error in a part. -/
def FieldError.message : FieldError → String
  | .comp text | .jump text => quote text
  | .dest text => (LineFault.dest text).message

/-- The computation with the given parts, checked in their order. -/
def Compute.ofTexts (comp dest jump : String) : Except FieldError Compute :=
  match Comp.ofText? comp, Dest.ofText? dest, Jump.ofText? jump with
  | none, _, _ => .error (.comp comp)
  | some _, none, _ => .error (.dest dest)
  | some _, some _, none => .error (.jump jump)
  | some c, some d, some j => .ok ⟨d, c, j⟩

/-- The word of a computation. -/
def Compute.encode (c : Compute) : Nat :=
  0xE000 + 0x40 * c.comp.code + 8 * c.dest.bits + c.jump.bits

namespace Word

/-- The word is a computation and not an address. -/
def isCompute (w : Int) : Bool :=
  w / 0x8000 % 2 == 1

/-- The code of a computation. -/
def code (w : Int) : Nat :=
  (w / 0x40 % 0x80).toNat

/-- The destination field of a computation. -/
def dest (w : Int) : Nat :=
  (w / 8 % 8).toNat

/-- The jump field of a computation. -/
def jump (w : Int) : Nat :=
  (w % 8).toNat

/-- The text of a computation, with a question mark for a code that is not in use. -/
def computeText (w : Int) : String :=
  match Comp.ofCode? (code w) with
  | some comp => Compute.text ⟨Dest.ofBits (dest w), comp, Jump.ofBits (jump w)⟩
  | none =>
    let registers := (Dest.ofBits (dest w)).text
    let jumpText := (Jump.ofBits (jump w)).text
    (if registers.isEmpty then "?" else registers ++ "=?") ++
      (if jumpText.isEmpty then "" else ";" ++ jumpText)

/-- The assembly text of a word. -/
def disassemble (w : Int) : String :=
  if isCompute w then computeText w else "@" ++ toString w

/-- The value of the last sixteen bits of a word. -/
def toNat (w : Int) : Nat :=
  (w % 0x10000).toNat

theorem toNat_lt (w : Int) : toNat w < 0x10000 := by
  unfold toNat
  omega

/-- The value of the last sixteen bits of a word, the first of them being the sign. -/
def signed (w : Int) : Int :=
  let n := w % 0x10000
  if 0x8000 ≤ n then n - 0x10000 else n

theorem signed_emod (w : Int) : signed w % 0x10000 = w % 0x10000 := by
  unfold signed
  dsimp only
  split <;> omega

theorem signed_bounds (w : Int) : -0x8000 ≤ signed w ∧ signed w < 0x8000 := by
  unfold signed
  dsimp only
  split <;> omega

end Word

end HackToolchain.Asm
