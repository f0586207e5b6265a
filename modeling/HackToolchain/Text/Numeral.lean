import HackToolchain.Text.Blank
import HackToolchain.Text.Digit
import HackToolchain.Text.Quoted

/-!
# Integer numerals

Reading and writing integers as text.  Blanks around a numeral and a sign in front of it are
allowed, and so is a single underscore between two digits.  There are two ways to read.

* `readDecimal` takes base ten, whatever zeros stand in front.
* `readLiteral` takes the base that the numeral announces: `0x`, `0o` or `0b` in either case, which
  an underscore may follow, and otherwise ten; without an announcement a numeral that starts with
  a zero must be zero.

Digits may come from any script, as `toAscii` maps them; the first character that is neither a
decimal digit, a blank nor ASCII ends the numeral with a mark that no numeral contains.

Numerals of base ten with more than `maxDigits` digits are neither read nor written.
-/

namespace HackToolchain.Text

/-- Why an integer has no numeral, or a text is none. -/
inductive NumeralError where
  /-- The text is no numeral; `base` is zero when the numeral was to announce its own. -/
  | invalid (base : Nat) (text : String)
  /-- The numeral to read has this many digits, which is too many. -/
  | tooLong (digits : Nat)
  /-- The integer to write has too many digits. -/
  | tooLarge
  deriving DecidableEq, Repr

/-- The greatest number of digits in a decimal numeral. -/
def maxDigits : Nat := 4300

/-- The least natural number that has more than `maxDigits` digits. -/
@[irreducible] def numeralBound : Nat := Nat.pow 10 maxDigits

/-- The message of an error; of the text at fault it shows no more than 200 characters. -/
def NumeralError.message : NumeralError → String
  | .invalid base text =>
    "invalid literal for int() with base " ++ toString base ++ ": " ++
      String.ofList ((quoteChars text.toList).take 200)
  | .tooLong digits =>
    "Exceeds the limit (4300 digits) for integer string conversion: value has " ++
      toString digits ++ " digits; use sys.set_int_max_str_digits() to increase the limit"
  | .tooLarge =>
    "Exceeds the limit (4300 digits) for integer string conversion; " ++
      "use sys.set_int_max_str_digits() to increase the limit"

/-! ### Digits and blanks -/

/-- The ASCII form of a text that holds other characters. -/
def toAscii.go : List Char → List Char
  | [] => []
  | c :: cs =>
    if c.toNat < 127 then c :: toAscii.go cs
    else if isBlank c then ' ' :: toAscii.go cs
    else match decimalValue? c with
      | some n => Nat.digitChar n :: toAscii.go cs
      | none => ['?']

/-- The text with the decimal digits and blanks of all scripts written as those of ASCII, cut off
at the first character that has no such form. -/
def toAscii (cs : List Char) : List Char :=
  if cs.all (·.toNat < 128) then cs else toAscii.go cs

/-- A blank that may stand around a numeral once it is in ASCII. -/
def isNumeralBlank (c : Char) : Bool :=
  c == ' ' || (9 ≤ c.toNat && c.toNat ≤ 13)

/-- The value of a digit or letter, as a digit. -/
def digitValue? (c : Char) : Option Nat :=
  if '0' ≤ c ∧ c ≤ '9' then some (c.toNat - '0'.toNat)
  else if 'a' ≤ c ∧ c ≤ 'z' then some (c.toNat - 'a'.toNat + 10)
  else if 'A' ≤ c ∧ c ≤ 'Z' then some (c.toNat - 'A'.toNat + 10)
  else none

/-- The character is a digit in the base. -/
def isDigitIn (base : Nat) (c : Char) : Bool :=
  match digitValue? c with
  | some n => n < base
  | none => false

/-- The value of a text in a base; characters that are no digits are passed over. -/
def digitsValue (base : Nat) (cs : List Char) : Nat :=
  cs.foldl (fun value c =>
    match digitValue? c with
    | some n => value * base + n
    | none => value) 0

/-- No two underscores touch, and none stands at the end. -/
def underscoresSeparate : List Char → Bool
  | [] => true
  | ['_'] => false
  | '_' :: '_' :: _ => false
  | _ :: cs => underscoresSeparate cs

/-! ### Reading -/

/-- A sign in front of a text, and what follows it. -/
def takeSign : List Char → Bool × List Char
  | '+' :: cs => (false, cs)
  | '-' :: cs => (true, cs)
  | cs => (false, cs)

/-- The text without one underscore in front. -/
def dropUnderscore : List Char → List Char
  | '_' :: cs => cs
  | cs => cs

/-- The base that a text announces, whether the value has to be zero, and the digits. -/
def takeBase : List Char → Nat × Bool × List Char
  | '0' :: 'x' :: cs => (16, false, dropUnderscore cs)
  | '0' :: 'X' :: cs => (16, false, dropUnderscore cs)
  | '0' :: 'o' :: cs => (8, false, dropUnderscore cs)
  | '0' :: 'O' :: cs => (8, false, dropUnderscore cs)
  | '0' :: 'b' :: cs => (2, false, dropUnderscore cs)
  | '0' :: 'B' :: cs => (2, false, dropUnderscore cs)
  | '0' :: cs => (10, true, '0' :: cs)
  | cs => (10, false, cs)

/-- Reads the digits of a numeral and the blanks behind them; `invalid` is the error for a text
that is none.  The digits are counted before anything behind them is looked at. -/
def readDigits (invalid : NumeralError) (base : Nat) (onlyZero : Bool) (cs : List Char) :
    Except NumeralError Nat :=
  let run := cs.takeWhile fun c => isDigitIn base c || c == '_'
  let rest := cs.dropWhile fun c => isDigitIn base c || c == '_'
  let count := run.countP (· != '_')
  let value := digitsValue base run
  -- a base that was announced may be followed by an underscore, but `takeBase` has dropped that
  if run.head? == some '_' || !underscoresSeparate run then .error invalid
  else if base = 10 ∧ maxDigits < count then .error (.tooLong count)
  else if onlyZero && value != 0 then .error invalid
  else if run.isEmpty || !rest.all isNumeralBlank then .error invalid
  else .ok value

/-- Reads a signed numeral, of base ten or of the base that it announces. -/
def readNumeral (announced : Bool) (text : List Char) : Except NumeralError Int := do
  let invalid := NumeralError.invalid (if announced then 0 else 10) (String.ofList text)
  let (negative, unsigned) := takeSign ((toAscii text).dropWhile isNumeralBlank)
  let (base, onlyZero, digits) := if announced then takeBase unsigned else (10, false, unsigned)
  let value ← readDigits invalid base onlyZero digits
  return if negative then -value else value

/-- Reads a numeral of base ten. -/
def readDecimal (text : String) : Except NumeralError Int :=
  readNumeral false text.toList

/-- Reads a numeral of the base that it announces. -/
def readLiteral (text : String) : Except NumeralError Int :=
  readNumeral true text.toList

/-! ### Writing -/

/-- The decimal numeral of an integer. -/
def writeNumeral (n : Int) : Except NumeralError String :=
  if numeralBound ≤ n.natAbs then .error .tooLarge else .ok (toString n)

end HackToolchain.Text
