/-!
# Computations

What the arithmetic unit is asked to compute: one of eighteen functions of the register `D` and of
a second operand, which is the register `A` or the memory cell that `A` points to.  A computation
has a *text* and a seven-bit *code*.

Where the order of the operands does not matter both orders may be written.  A `Comp` remembers
which one was, so that printing gives back the text that was read; the code is the same.
-/

namespace HackToolchain.Asm

/-- The second operand of the arithmetic unit. -/
inductive Operand where
  /-- The register `A`. -/
  | a
  /-- The memory cell that `A` points to. -/
  | m
  deriving DecidableEq, Repr

/-- Which operand of a sum, a conjunction or a disjunction is written first. -/
inductive WrittenOrder where
  /-- The register `D` first. -/
  | dFirst
  /-- The register `D` last. -/
  | dLast
  deriving DecidableEq, Repr

/-- A computation, `y` being the second operand. -/
inductive Comp where
  /-- Zero. -/
  | zero
  /-- One. -/
  | one
  /-- Minus one. -/
  | minusOne
  /-- The register `D`. -/
  | d
  /-- The complement of `D`. -/
  | notD
  /-- `D` negated. -/
  | negD
  /-- `D` and one. -/
  | incD
  /-- `D` less one. -/
  | decD
  /-- The second operand. -/
  | get (y : Operand)
  /-- The complement of the second operand. -/
  | not (y : Operand)
  /-- The second operand negated. -/
  | neg (y : Operand)
  /-- The second operand and one. -/
  | inc (y : Operand)
  /-- The second operand less one. -/
  | dec (y : Operand)
  /-- The sum of the operands. -/
  | add (y : Operand) (order : WrittenOrder)
  /-- `D` less the second operand. -/
  | sub (y : Operand)
  /-- The second operand less `D`. -/
  | subD (y : Operand)
  /-- The bitwise conjunction of the operands. -/
  | and (y : Operand) (order : WrittenOrder)
  /-- The bitwise disjunction of the operands. -/
  | or (y : Operand) (order : WrittenOrder)
  deriving DecidableEq, Repr

namespace Comp

/-- The name of an operand. -/
def operandText : Operand → String
  | .a => "A"
  | .m => "M"

/-- Two operands and the sign between them. -/
def pairText (sign : String) (y : Operand) : WrittenOrder → String
  | .dFirst => "D" ++ sign ++ operandText y
  | .dLast => operandText y ++ sign ++ "D"

/-- The text of a computation. -/
def text : Comp → String
  | .zero => "0"
  | .one => "1"
  | .minusOne => "-1"
  | .d => "D"
  | .notD => "!D"
  | .negD => "-D"
  | .incD => "D+1"
  | .decD => "D-1"
  | .get y => operandText y
  | .not y => "!" ++ operandText y
  | .neg y => "-" ++ operandText y
  | .inc y => operandText y ++ "+1"
  | .dec y => operandText y ++ "-1"
  | .add y order => pairText "+" y order
  | .sub y => "D-" ++ operandText y
  | .subD y => operandText y ++ "-D"
  | .and y order => pairText "&" y order
  | .or y order => pairText "|" y order

/-- The bit of the code that selects the second operand. -/
def operandCode : Operand → Nat
  | .a => 0
  | .m => 0b1000000

/-- The code of a computation: the operand bit, and then the six control bits of the arithmetic
unit, which say whether to clear and to complement the first operand, the same for the second,
whether to add, and whether to complement the result. -/
def code : Comp → Nat
  | .zero => 0b101010
  | .one => 0b111111
  | .minusOne => 0b111010
  | .d => 0b001100
  | .notD => 0b001101
  | .negD => 0b001111
  | .incD => 0b011111
  | .decD => 0b001110
  | .get y => operandCode y + 0b110000
  | .not y => operandCode y + 0b110001
  | .neg y => operandCode y + 0b110011
  | .inc y => operandCode y + 0b110111
  | .dec y => operandCode y + 0b110010
  | .add y _ => operandCode y + 0b000010
  | .sub y => operandCode y + 0b010011
  | .subD y => operandCode y + 0b000111
  | .and y _ => operandCode y + 0b000000
  | .or y _ => operandCode y + 0b010101

/-- The computations that use a second operand. -/
def ofOperand (y : Operand) : List Comp :=
  [.get y, .not y, .neg y, .inc y, .dec y, .add y .dFirst, .sub y, .subD y, .and y .dFirst,
    .or y .dFirst, .add y .dLast, .and y .dLast, .or y .dLast]

/-- All computations.  Of two that differ in the written order alone, the one with `D` first comes
first. -/
def all : List Comp :=
  [.zero, .one, .minusOne, .d, .notD, .negD, .incD, .decD] ++ ofOperand .a ++ ofOperand .m

/-- The computation with the given text. -/
def ofText? (text : String) : Option Comp :=
  all.find? (·.text == text)

/-- The computation with the given code, `D` being written first. -/
def ofCode? (code : Nat) : Option Comp :=
  all.find? (·.code == code)

theorem mem_all (comp : Comp) : comp ∈ all := by
  cases comp with
  | get y | not y | neg y | inc y | dec y | sub y | subD y => cases y <;> decide
  | add y order | and y order | or y order => cases y <;> cases order <;> decide
  | _ => decide

theorem ofText?_text (comp : Comp) : ofText? comp.text = some comp := by
  have h : ∀ c ∈ all, ofText? c.text = some c := by decide
  exact h comp (mem_all comp)

theorem code_lt (comp : Comp) : comp.code < 128 := by
  have h : ∀ c ∈ all, c.code < 128 := by decide
  exact h comp (mem_all comp)

end Comp

end HackToolchain.Asm
