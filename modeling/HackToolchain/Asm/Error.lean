import HackToolchain.Text.Numeral

/-!
# Errors of the assembly language

Why a line is no statement, a text is no field of one, or a program cannot be assembled.
-/

namespace HackToolchain.Asm

open HackToolchain.Text

/-- What is wrong with a line of a program; each cause holds the text at fault. -/
inductive LineFault where
  /-- The literal does not fit an instruction. -/
  | literal (digits : String)
  /-- The address is no symbol. -/
  | symbol (text : String)
  /-- The line starts like a label and is none. -/
  | label (text : String)
  /-- There is no such computation. -/
  | comp (text : String)
  /-- There is no such jump. -/
  | jump (text : String)
  /-- There are no such registers. -/
  | dest (text : String)
  /-- The line of a machine program is no word. -/
  | word (text : String)
  deriving DecidableEq, Repr

/-- The wording of a fault, up to the number of the line. -/
def LineFault.message : LineFault → String
  | .literal digits => "literal " ++ digits ++ " out of range"
  | .symbol text => "bad symbol " ++ quote text
  | .label text => "bad label " ++ quote text
  | .comp text => "bad comp " ++ quote text
  | .jump text => "bad jump " ++ quote text
  | .dest text => "bad dest " ++ quote text
  | .word text => "bad machine word " ++ quote text

/-- Why a program cannot be read or assembled. -/
inductive Error where
  /-- The line with this number, counted from one, is at fault. -/
  | line (fault : LineFault) (number : Nat)
  /-- An address that consists of digits is no numeral. -/
  | numeral (error : NumeralError)
  /-- The label is declared twice, or is predefined. -/
  | duplicateLabel (name : String)
  deriving DecidableEq, Repr

/-- The message of an error. -/
def Error.message : Error → String
  | .line fault number => fault.message ++ " at line " ++ toString number
  | .numeral error => error.message
  | .duplicateLabel name => "duplicate label " ++ quote name

end HackToolchain.Asm
