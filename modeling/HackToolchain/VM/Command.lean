import HackToolchain.Text.LineBreak
import HackToolchain.Text.Numeral

/-!
# Commands of the stack machine

A source text has a command on each line that is not empty once its comment and the blanks around
it are gone.  The first token of a command tells its kind; a token that is no keyword makes it an
arithmetic command.

A command keeps its text.  Its arguments are read off the tokens when they are asked for:
`Command.argument` gives the first, a name, and `Command.count` the second, a number.
-/

namespace HackToolchain.VM

open HackToolchain.Text

/-! ### Source lines -/

/-- A line that holds a command. -/
structure NumberedLine where
  /-- The command, without its comment and the blanks around it. -/
  text : String
  /-- The number of the line, counted from one over all lines. -/
  number : Nat
  deriving DecidableEq, Repr

/-- The lines of a source text that hold a command. -/
def commandLines (source : String) : List NumberedLine :=
  ((splitLines source.toList).zipIdx 1).filterMap fun (line, number) =>
    match strip (beforeSlashes line) with
    | [] => none
    | cs => some ⟨String.ofList cs, number⟩

/-! ### Kinds -/

/-- The kinds of commands. -/
inductive Kind where
  /-- Replaces the top of the stack by a result. -/
  | arithmetic
  /-- Pushes a memory cell or a constant. -/
  | push
  /-- Pops into a memory cell. -/
  | pop
  /-- Names a place. -/
  | label
  /-- Goes to a place. -/
  | goto
  /-- Goes to a place if the value popped is not zero. -/
  | ifGoto
  /-- Begins a function. -/
  | function
  /-- Calls a function. -/
  | call
  /-- Returns to the caller. -/
  | ret
  deriving DecidableEq, Repr

namespace Kind

/-- The name of a kind; it is the keyword of every kind that has one. -/
def name : Kind → String
  | .arithmetic => "arithmetic"
  | .push => "push"
  | .pop => "pop"
  | .label => "label"
  | .goto => "goto"
  | .ifGoto => "if-goto"
  | .function => "function"
  | .call => "call"
  | .ret => "return"

/-- The kinds that have a keyword. -/
def keywords : List Kind :=
  [.push, .pop, .label, .goto, .ifGoto, .function, .call, .ret]

/-- The kind of a command that begins with the given token. -/
def ofToken (token : String) : Kind :=
  (keywords.find? (·.name == token)).getD .arithmetic

/-- Commands of the kind have a number as their second argument. -/
def hasCount : Kind → Bool
  | .push | .pop | .function | .call => true
  | _ => false

theorem ofToken_name {kind : Kind} (h : kind ∈ keywords) : ofToken kind.name = kind := by
  have h : ∀ k ∈ keywords, ofToken k.name = k := by decide
  exact h kind ‹_›

end Kind

/-! ### Errors -/

/-- Why a text is no command, or a command lacks an argument. -/
inductive CommandError where
  /-- The text is blank. -/
  | blank
  /-- The command has no first argument. -/
  | missingArgument (kind : Kind)
  /-- The command has no second argument. -/
  | missingCount (kind : Kind)
  /-- The second argument does not consist of digits. -/
  | badCount (kind : Kind) (token : String)
  /-- The second argument is no numeral. -/
  | numeral (error : NumeralError)
  /-- Returns have no first argument. -/
  | noArgument
  /-- Commands of the kind have no second argument. -/
  | noCount (kind : Kind)
  deriving DecidableEq, Repr

/-- The message of an error. -/
def CommandError.message : CommandError → String
  | .blank => "list index out of range"
  | .missingArgument kind => kind.name ++ ": missing argument"
  | .missingCount kind => kind.name ++ ": missing integer argument"
  | .badCount kind token =>
    kind.name ++ ": expected non-negative integer, got " ++ quote token
  | .numeral error => error.message
  | .noArgument => "arg1 is invalid for 'return'"
  | .noCount kind => "arg2 is invalid for '" ++ kind.name ++ "'"

/-! ### Commands -/

/-- A command. -/
structure Command where
  /-- Its text. -/
  text : String
  /-- Its kind. -/
  kind : Kind
  /-- The number of its line. -/
  line : Nat := 0
  deriving DecidableEq, Repr

/-- The kind of the command that a text holds. -/
def kindOf (text : String) : Except CommandError Kind :=
  match tokens text.toList with
  | [] => .error .blank
  | token :: _ => .ok (Kind.ofToken (String.ofList token))

namespace Command

/-- The command that a text holds. -/
def ofText (text : String) (line : Nat) : Except CommandError Command := do
  let stripped := String.ofList (strip text.toList)
  return ⟨stripped, ← kindOf stripped, line⟩

/-- The first argument: the whole text of an arithmetic command, and otherwise the second token. -/
def argument (c : Command) : Except CommandError String :=
  match c.kind with
  | .arithmetic => .ok c.text
  | .ret => .error .noArgument
  | kind =>
    match tokens c.text.toList with
    | _ :: token :: _ => .ok (String.ofList token)
    | _ => .error (.missingArgument kind)

/-- The second argument: the number that the third token stands for. -/
def count (c : Command) : Except CommandError Int :=
  if c.kind.hasCount then
    match tokens c.text.toList with
    | _ :: _ :: token :: _ =>
      if token.all isDigit then
        match readDecimal (String.ofList token) with
        | .ok n => .ok n
        | .error error => .error (.numeral error)
      else .error (.badCount c.kind (String.ofList token))
    | _ => .error (.missingCount c.kind)
  else .error (.noCount c.kind)

end Command

/-- The commands of a source text. -/
def readCommands (source : String) : Except CommandError (List Command) :=
  (commandLines source).mapM fun line => Command.ofText line.text line.number

end HackToolchain.VM
