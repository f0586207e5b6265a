import HackToolchain.Asm.Comp

/-!
# Statements of the assembly language

A statement loads an address, declares a label, or computes: a computation, the registers that
receive its result, and the jump that depends on it.

`Statement.text` prints a statement.  Registers print in the order in which they were written, and
a part that is empty prints nothing at all.
-/

namespace HackToolchain.Asm

/-! ### Destinations -/

/-- A place that can receive the result of a computation. -/
inductive Register where
  /-- The address register. -/
  | a
  /-- The data register. -/
  | d
  /-- The memory cell that `A` points to. -/
  | m
  deriving DecidableEq, Repr

namespace Register

/-- The letter of a register. -/
def letter : Register → Char
  | .a => 'A'
  | .d => 'D'
  | .m => 'M'

/-- The register with the given letter. -/
def ofLetter? : Char → Option Register
  | 'A' => some .a
  | 'D' => some .d
  | 'M' => some .m
  | _ => none

/-- The bit of a register in the destination field. -/
def bit : Register → Nat
  | .a => 4
  | .d => 2
  | .m => 1

theorem ofLetter?_letter (r : Register) : ofLetter? r.letter = some r := by
  cases r <;> rfl

end Register

/-- The registers that receive a result, in the order in which they are written. -/
structure Dest where
  /-- The registers. -/
  registers : List Register
  /-- No register is written twice. -/
  nodup : registers.Nodup := by decide
  deriving DecidableEq, Repr

namespace Dest

/-- No register. -/
def none : Dest := ⟨[], by decide⟩

instance : Inhabited Dest := ⟨none⟩

/-- The letters of the registers. -/
def text (dest : Dest) : String :=
  String.ofList (dest.registers.map Register.letter)

/-- The destination field. -/
def bits (dest : Dest) : Nat :=
  dest.registers.foldr (fun r bits => r.bit + bits) 0

/-- The registers with the given letters, if there is one for each and no letter occurs twice. -/
def ofText? (text : String) : Option Dest := do
  let registers ← text.toList.mapM Register.ofLetter?
  if h : registers.Nodup then some ⟨registers, h⟩ else Option.none

/-- The registers of a destination field, in the order `A`, `D`, `M`. -/
def ofBits (bits : Nat) : Dest where
  registers := [Register.a, .d, .m].filter fun r => bits / r.bit % 2 == 1
  nodup := List.Pairwise.filter _ (by decide)

end Dest

/-! ### Jumps -/

/-- When a jump is taken, by the sign of the result. -/
inductive Jump where
  /-- Never. -/
  | never
  /-- If the result is positive. -/
  | gt
  /-- If the result is zero. -/
  | eq
  /-- If the result is not negative. -/
  | ge
  /-- If the result is negative. -/
  | lt
  /-- If the result is not zero. -/
  | ne
  /-- If the result is not positive. -/
  | le
  /-- Always. -/
  | always
  deriving DecidableEq, Repr

namespace Jump

/-- The text of a jump; nothing for the one that is never taken. -/
def text : Jump → String
  | .never => ""
  | .gt => "JGT"
  | .eq => "JEQ"
  | .ge => "JGE"
  | .lt => "JLT"
  | .ne => "JNE"
  | .le => "JLE"
  | .always => "JMP"

/-- The jump field: the bits for a negative, a zero and a positive result. -/
def bits : Jump → Nat
  | .never => 0
  | .gt => 1
  | .eq => 2
  | .ge => 3
  | .lt => 4
  | .ne => 5
  | .le => 6
  | .always => 7

/-- All jumps, by their field. -/
def all : List Jump := [.never, .gt, .eq, .ge, .lt, .ne, .le, .always]

/-- The jump with the given text. -/
def ofText? (text : String) : Option Jump :=
  all.find? (·.text == text)

/-- The jump with the given field, of which the last three bits count. -/
def ofBits (bits : Nat) : Jump :=
  all.getD (bits % 8) .never

theorem ofText?_text (jump : Jump) : ofText? jump.text = some jump := by
  cases jump <;> decide

theorem ofBits_bits (jump : Jump) : ofBits jump.bits = jump := by
  cases jump <;> rfl

end Jump

/-! ### Statements -/

/-- The address that a statement loads. -/
inductive Address where
  /-- A number. -/
  | literal (value : Int)
  /-- The address that a symbol stands for. -/
  | symbol (name : String)
  deriving DecidableEq, Repr

/-- A computation, where its result goes, and the jump that depends on it. -/
structure Compute where
  /-- The registers that receive the result. -/
  dest : Dest := Dest.none
  /-- The computation. -/
  comp : Comp
  /-- The jump. -/
  jump : Jump := .never
  deriving DecidableEq, Repr

/-- A statement. -/
inductive Statement where
  /-- Loads an address into `A`. -/
  | address (value : Address)
  /-- Gives the next instruction a name. -/
  | label (name : String)
  /-- Computes. -/
  | compute (value : Compute)
  deriving DecidableEq, Repr

/-- The text of an address. -/
def Address.text : Address → String
  | .literal value => toString value
  | .symbol name => name

/-- The text of a compute statement. -/
def Compute.text (c : Compute) : String :=
  let assigned := if c.dest.text.isEmpty then c.comp.text else c.dest.text ++ "=" ++ c.comp.text
  if c.jump.text.isEmpty then assigned else assigned ++ ";" ++ c.jump.text

/-- The text of a statement. -/
def Statement.text : Statement → String
  | .address value => "@" ++ value.text
  | .label name => "(" ++ name ++ ")"
  | .compute value => value.text

/-- The statement is an instruction and so takes a word of the program memory. -/
def Statement.isInstruction : Statement → Bool
  | .label _ => false
  | _ => true

end HackToolchain.Asm
