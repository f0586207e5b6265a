import HackToolchain.Text.LineBreak
import HackToolchain.Text.Numeral

/-!
# Command-line options

How the arguments of a command are told apart.  A command has options, which have names that start
with one or two hyphens, and at most one operand.

* The value of an option is the next argument, or follows the name: after an equals sign, or right
  after the name of an option with one hyphen.  Two hyphens that follow the name are no value: the
  option is there, and its value is missing.
* What follows the name of an option with one hyphen and no value are the letters of more options.
* A name with two hyphens may be cut short as long as it fits no other name.
* An argument that starts with a hyphen is no option if it is a hyphen alone, looks like a negative
  number, or holds a space and fits no name.
* All arguments after a first `--` are operands.

Options count in the order in which they stand.  A request for help ends the reading with success;
any other end before the last argument, an argument that is left over and an operand that is missing
are usage errors.
-/

namespace HackToolchain.Cli

open HackToolchain.Text

/-- What an option means; `κ` is what the command makes of its arguments. -/
inductive Meaning (κ : Type) where
  /-- Asks for help. -/
  | help
  /-- Has no value. -/
  | flag (given : κ)
  /-- Has a text as its value, which may be missing. -/
  | text (given : Option String → κ)
  /-- Has an integer as its value, which may be missing. -/
  | integer (given : Option Int → κ)

/-- The option has a value. -/
def Meaning.hasValue {κ : Type} : Meaning κ → Bool
  | .help | .flag _ => false
  | .text _ | .integer _ => true

/-- A name of an option. -/
structure OptionName (κ : Type) where
  /-- The name, with its hyphens. -/
  name : String
  /-- What the option means. -/
  meaning : Meaning κ

/-- The arguments that a command takes. -/
structure Grammar (κ : Type) where
  /-- The names of its options. -/
  names : List (OptionName κ)
  /-- Its operand, if it has one. -/
  operand : Option (String → κ)

/-- Why the arguments are not used. -/
inductive Refusal where
  /-- Help is asked for. -/
  | help
  /-- The arguments do not fit. -/
  | usage
  deriving DecidableEq, Repr

/-- What an argument is. -/
inductive Argument (κ : Type) where
  /-- An operand or a value. -/
  | word (text : String)
  /-- The argument after which there are no options. -/
  | marker
  /-- An option, with what follows its name in the argument, if anything does. -/
  | option (option : OptionName κ) (attached : Option (List Char))
  /-- An option that the command does not have. -/
  | unknown

namespace Grammar

variable {κ : Type}

/-! ### Telling arguments apart -/

/-- The option with exactly this name. -/
def find? (g : Grammar κ) (name : List Char) : Option (OptionName κ) :=
  g.names.find? fun o => o.name.toList == name

/-- The text is a number with a hyphen in front, as digits and perhaps a point. -/
def isNegativeNumber : List Char → Bool
  | '-' :: cs =>
    let cs := dropFinalFeed cs
    match cs.dropWhile isDecimal with
    | [] => !cs.isEmpty
    | '.' :: fraction => !fraction.isEmpty && fraction.all isDecimal
    | _ => false
  | _ => false

/-- The options that an argument with two hyphens may be short for, and its value. -/
def abbreviated (g : Grammar κ) (cs : List Char) : List (Argument κ) :=
  let value := if cs.contains '=' then some (after '=' cs) else none
  (g.names.filter fun o => (before '=' cs).isPrefixOf o.name.toList).map
    fun o => .option o value

/-- The options with one hyphen that an argument begins with. -/
def attached (g : Grammar κ) (cs : List Char) : List (Argument κ) :=
  g.names.filterMap fun o =>
    if o.name.toList == cs.take 2 then some (.option o (some (cs.drop 2)))
    else if cs.isPrefixOf o.name.toList then some (.option o none)
    else none

/-- What an argument that starts with a hyphen and is no option can still be. -/
def notOption (cs : List Char) : Argument κ :=
  if isNegativeNumber cs || cs.contains ' ' then .word (String.ofList cs) else .unknown

/-- What an argument before the marker is; none if it fits several options. -/
def recognise (g : Grammar κ) (text : String) : Option (Argument κ) :=
  let cs := text.toList
  match cs with
  | '-' :: c :: _ =>
    -- a full name
    match g.find? cs with
    | some o => some (.option o none)
    | none =>
      -- a full name with a value
      match cs.contains '=', g.find? (before '=' cs) with
      | true, some o => some (.option o (some (after '=' cs)))
      | _, _ =>
        -- a shortened name, or a name with one hyphen and what is attached to it
        match if c = '-' then g.abbreviated cs else g.attached cs with
        | [] => some (notOption cs)
        | [argument] => some argument
        | _ => none
  | _ => some (.word text)

/-- What the arguments are; none if one of them fits several options. -/
def recogniseAll (g : Grammar κ) : List String → Option (List (Argument κ))
  | [] => some []
  | text :: texts =>
    if text = "--" then some (.marker :: texts.map .word)
    else do
      let argument ← g.recognise text
      return argument :: (← g.recogniseAll texts)

/-! ### Reading options -/

/-- What the command makes of an option and its value, which is missing if there is none. -/
def take (meaning : Meaning κ) (value : Option String) : Except Refusal κ :=
  match meaning with
  | .help => .error .help
  | .flag given => .ok given
  | .text given => .ok (given value)
  | .integer given =>
    match value with
    | none => .ok (given none)
    | some text =>
      match readDecimal text with
      | .ok n => .ok (given (some n))
      | .error _ => .error .usage

/-- The value that what follows a name stands for; two hyphens stand for none. -/
def attachedValue (cs : List Char) : Option String :=
  if cs = ['-', '-'] then none else some (String.ofList cs)

/-- Several options with one hyphen, and the value of the last, as one argument. -/
structure Cluster (κ : Type) where
  /-- The options, each with its value. -/
  options : List (Meaning κ × Option String)
  /-- What follows the argument. -/
  rest : List (Argument κ)

/-- Reads an option, with its value from the argument or from the next one.  An option with one
hyphen that has no value may be followed by the letters of more options. -/
def readOption (g : Grammar κ) (rest : List (Argument κ)) (o : OptionName κ) :
    Option (List Char) → Except Refusal (Cluster κ)
  | none =>
    if o.meaning.hasValue then
      match rest with
      | .word value :: rest => .ok ⟨[(o.meaning, some value)], rest⟩
      | _ => .error .usage
    else .ok ⟨[(o.meaning, none)], rest⟩
  | some attached =>
    if o.meaning.hasValue then .ok ⟨[(o.meaning, attachedValue attached)], rest⟩
    else if "--".isPrefixOf o.name then .error .usage
    else
      match attached with
      | [] => .error .usage
      | c :: cs =>
        -- the first letter has to name another option, to which the other letters are attached
        match g.find? ['-', c] with
        | none => .error .usage
        | some next => do
          let more ← readOption g rest next (if cs.isEmpty then none else some cs)
          return { more with options := (o.meaning, none) :: more.options }
  termination_by attached => (attached.map fun cs => cs.length + 1).getD 0
  decreasing_by split <;> simp_all

/-- Some argument is an option. -/
def hasOption (arguments : List (Argument κ)) : Bool :=
  arguments.any fun
    | .option _ _ | .unknown => true
    | _ => false

/-- The operand at the front of some arguments, and what follows it; a marker next to it is part of
it. -/
def takeOperand : List (Argument κ) → Option (String × List (Argument κ))
  | .word text :: .marker :: rest => some (text, rest)
  | .word text :: rest => some (text, rest)
  | .marker :: .word text :: rest => some (text, rest)
  | _ => none

/-- What has been read of the arguments. -/
structure Reading (κ : Type) where
  /-- What the command makes of it. -/
  given : List κ := []
  /-- The operand is still to come. -/
  operand : Option (String → κ)
  /-- An argument has been left over. -/
  surplus : Bool := false

/-- Ends the reading with some arguments among which there are no options. -/
def finish (arguments : List (Argument κ)) (reading : Reading κ) : Except Refusal (List κ) :=
  match reading.operand with
  | none => if arguments.isEmpty && !reading.surplus then .ok reading.given else .error .usage
  | some given =>
    match takeOperand arguments with
    | some (text, []) =>
      if reading.surplus then .error .usage else .ok (reading.given ++ [given text])
    | _ => .error .usage

/-- Reads at most `n` arguments or groups of arguments, and ends with the rest. -/
def readArguments (g : Grammar κ) :
    Nat → List (Argument κ) → Reading κ → Except Refusal (List κ)
  | 0, arguments, reading => finish arguments reading
  | n + 1, arguments, reading =>
    if hasOption arguments then
      match arguments with
      | [] => finish [] reading
      | .unknown :: rest => g.readArguments n rest { reading with surplus := true }
      | .option o attached :: rest => do
        let cluster ← g.readOption rest o attached
        let given ← cluster.options.mapM fun (meaning, value) => take meaning value
        g.readArguments n cluster.rest { reading with given := reading.given ++ given }
      | .marker :: rest => g.readArguments n rest { reading with surplus := true }
      | .word text :: rest =>
        match reading.operand with
        | none => g.readArguments n rest { reading with surplus := true }
        | some operand =>
          g.readArguments n rest
            { reading with given := reading.given ++ [operand text], operand := none }
    else finish arguments reading

/-- What the command makes of its arguments, in order. -/
def parse (g : Grammar κ) (texts : List String) : Except Refusal (List κ) :=
  match g.recogniseAll texts with
  | none => .error .usage
  | some arguments => g.readArguments arguments.length arguments { operand := g.operand }

end Grammar

/-- The name of a file that an option gives.  An empty name and a missing one give no file. -/
def fileName (value : Option String) : Option String :=
  value.filter fun name => !name.isEmpty

end HackToolchain.Cli
