import HackToolchain.Asm.Error
import HackToolchain.Asm.Statement
import HackToolchain.MemoryMap
import HackToolchain.Text.LineBreak
import HackToolchain.Text.WordChar

/-!
# Reading the assembly language

`Statement.read` reads one line.  Two slashes start a comment, and blanks around what is left do not
count.  An at sign starts an address, which is a literal if it consists of digits and a symbol
otherwise; a parenthesis starts a label; anything else is a computation, in which spaces do not
count, with the destination before the first equals sign and the jump after the first semicolon
behind it.

A symbol starts with an ASCII letter or one of `_ . $ :`, and goes on with word characters and
`. $ :`.  One line feed may end it.
-/

namespace HackToolchain.Asm

open HackToolchain.Text

/-! ### Symbols -/

/-- The punctuation that symbols may hold. -/
def isSymbolMark (c : Char) : Bool :=
  c == '.' || c == '$' || c == ':'

/-- A character that may start a symbol. -/
def isSymbolStart (c : Char) : Bool :=
  c.isAlpha || c == '_' || isSymbolMark c

/-- A character that may stand inside a symbol. -/
def isSymbolChar (c : Char) : Bool :=
  isWordChar c || isSymbolMark c

/-- The text is a symbol. -/
def isSymbol : List Char → Bool
  | [] => false
  | c :: cs => isSymbolStart c && (dropFinalFeed cs).all isSymbolChar

/-! ### Statements -/

/-- Reads what follows an at sign. -/
def Address.read (number : Nat) (cs : List Char) : Except Error Address :=
  let text := String.ofList cs
  if !cs.isEmpty && cs.all isDigit then
    match readDecimal text with
    | .error error => .error (.numeral error)
    | .ok value =>
      if (MemoryMap.maxAddress : Int) < value then .error (.line (.literal text) number)
      else .ok (.literal value)
  else if isSymbol cs then .ok (.symbol text)
  else .error (.line (.symbol text) number)

/-- Reads a label, parentheses included. -/
def readLabel (number : Nat) (cs : List Char) : Except Error String :=
  let name := (cs.drop 1).dropLast
  if cs.getLast? == some ')' && isSymbol name then .ok (String.ofList name)
  else .error (.line (.label (String.ofList cs)) number)

/-- The destination, the computation and the jump of a line without spaces, as texts. -/
def splitParts (cs : List Char) : List Char × List Char × List Char :=
  let (dest, rest) := if cs.contains '=' then (before '=' cs, after '=' cs) else ([], cs)
  if rest.contains ';' then (dest, before ';' rest, after ';' rest) else (dest, rest, [])

/-- Reads a computation.  The computation is checked first, then the jump, then the
destination. -/
def Compute.read (number : Nat) (cs : List Char) : Except Error Compute :=
  -- spaces count nowhere inside a computation, other blanks do
  let (dest, comp, jump) := splitParts (cs.filter (· != ' '))
  match Comp.ofText? (String.ofList comp) with
  | none => .error (.line (.comp (String.ofList comp)) number)
  | some c =>
    match Jump.ofText? (String.ofList jump) with
    | none => .error (.line (.jump (String.ofList jump)) number)
    | some j =>
      match Dest.ofText? (String.ofList dest) with
      | none => .error (.line (.dest (String.ofList dest)) number)
      | some d => .ok ⟨d, c, j⟩

/-- Reads the line with the given number; none if there is nothing on it. -/
def Statement.read (number : Nat) (line : String) : Except Error (Option Statement) :=
  match strip (beforeSlashes line.toList) with
  | [] => .ok none
  | '@' :: cs => (Address.read number cs).map fun value => some (.address value)
  | '(' :: cs => (readLabel number ('(' :: cs)).map fun name => some (.label name)
  | cs => (Compute.read number cs).map fun value => some (.compute value)

/-- Reads lines, of which the first has the given number, after the statements `done`. -/
def readStatements.go (number : Nat) (done : Array Statement) :
    List String → Except Error (Array Statement)
  | [] => .ok done
  | line :: lines =>
    match Statement.read number line with
    | .error error => .error error
    | .ok none => readStatements.go (number + 1) done lines
    | .ok (some statement) => readStatements.go (number + 1) (done.push statement) lines

/-- Reads a program. -/
def readStatements (lines : List String) : Except Error (List Statement) :=
  (readStatements.go 1 #[] lines).map Array.toList

end HackToolchain.Asm
