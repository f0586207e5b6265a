/-!
# The memory map

Where the platform keeps what: the registers of the stack machine in low memory, the fixed areas
above them, and the symbols that stand for these addresses in every program.
-/

namespace HackToolchain

/-- A cell of low memory that the stack machine uses as a register. -/
inductive Cell where
  /-- The stack pointer. -/
  | sp
  /-- The base of the local variables. -/
  | lcl
  /-- The base of the arguments. -/
  | arg
  /-- The base of the segment `this`. -/
  | this
  /-- The base of the segment `that`. -/
  | that
  /-- A scratch cell: the frame under return, or the target of a pop. -/
  | r13
  /-- A scratch cell: the return address. -/
  | r14
  /-- A scratch cell. -/
  | r15
  deriving DecidableEq, Repr

/-- The address of a register cell. -/
def Cell.address : Cell → Nat
  | .sp => 0
  | .lcl => 1
  | .arg => 2
  | .this => 3
  | .that => 4
  | .r13 => 13
  | .r14 => 14
  | .r15 => 15

/-- The symbol of a register cell. -/
def Cell.symbol : Cell → String
  | .sp => "SP"
  | .lcl => "LCL"
  | .arg => "ARG"
  | .this => "THIS"
  | .that => "THAT"
  | .r13 => "R13"
  | .r14 => "R14"
  | .r15 => "R15"

namespace MemoryMap

/-- The first cell of the segment `temp`. -/
def tempBase : Nat := 5

/-- The number of cells of the segment `temp`. -/
def tempSize : Nat := 8

/-- The first cell for variables. -/
def variableBase : Nat := 16

/-- The first cell of the stack. -/
def stackBase : Nat := 256

/-- The first cell of the screen. -/
def screen : Nat := 16384

/-- The cell of the keyboard. -/
def keyboard : Nat := 24576

/-- The number of cells of a machine as it is usually built. -/
def ramWords : Nat := 32768

/-- The greatest address that an instruction can hold. -/
def maxAddress : Nat := 32767

/-- The symbols that every program knows, with their addresses. -/
def predefined : List (String × Nat) :=
  [("R0", 0), ("R1", 1), ("R2", 2), ("R3", 3), ("R4", 4), ("R5", 5), ("R6", 6), ("R7", 7),
    ("R8", 8), ("R9", 9), ("R10", 10), ("R11", 11), ("R12", 12), ("R13", 13), ("R14", 14),
    ("R15", 15), ("SP", 0), ("LCL", 1), ("ARG", 2), ("THIS", 3), ("THAT", 4),
    ("SCREEN", screen), ("KBD", keyboard)]

/-- The address that a predefined symbol stands for. -/
def predefined? (symbol : String) : Option Nat :=
  predefined.lookup symbol

theorem predefined?_symbol (cell : Cell) : predefined? cell.symbol = some cell.address := by
  cases cell <;> rfl

end MemoryMap

end HackToolchain
