import HackToolchain.Files.Path
import HackToolchain.Text.Utf8
import HackToolchain.VM.Code

/-!
# Compiling programs

A program consists of units.  They are compiled in order, one scope running through all of them:
each unit names its own static variables, and generated labels are numbered through.

`Generator` collects the code.  `compile` takes units as files hold them, and says of each error
at which line of which unit it is.
-/

namespace HackToolchain.VM

open HackToolchain.Text

/-! ### Collecting code -/

/-- The code so far, and the scope of what follows. -/
structure Generator where
  /-- Comments are wanted. -/
  comments : Bool := false
  /-- The scope. -/
  scope : Scope := {}
  /-- The code. -/
  code : Array Line := #[]

namespace Generator

/-- Adds what an emitter emits, also if it stops. -/
def add {α : Type} (x : Emitter α) (g : Generator) : Except EmitError α × Generator :=
  match x g.scope with
  | ⟨lines, scope, result⟩ => (result, { g with scope := scope, code := g.code ++ lines })

/-- Names the unit that follows. -/
def enterUnit (name : String) (g : Generator) : Generator :=
  { g with scope := { g.scope with unitName := name } }

/-- Adds the code that starts a program. -/
def addStart (g : Generator) : Except EmitError Unit × Generator :=
  g.add (Emitter.start g.comments)

/-- Adds the code of a command. -/
def addCommand (c : Command) (g : Generator) : Except EmitError Unit × Generator :=
  g.add (Emitter.command g.comments c)

/-- Adds the code of commands, up to the first error, which comes with the command that it is
at. -/
def addCommands : List Command → Generator → Except (Command × EmitError) Unit × Generator
  | [], g => (.ok (), g)
  | c :: cs, g =>
    match g.addCommand c with
    | (.ok (), g) => addCommands cs g
    | (.error error, g) => (.error (c, error), g)

/-- Adds the code of a source text, up to the first error. -/
def addSource (source : String) (g : Generator) : Except EmitError Unit × Generator :=
  match readCommands source with
  | .error error => (.error (.command error), g)
  | .ok cs =>
    match g.addCommands cs with
    | (.ok (), g) => (.ok (), g)
    | (.error (_, error), g) => (.error error, g)

/-- The text of the code. -/
def lines (g : Generator) : List String :=
  g.code.toList.map Line.text

end Generator

/-- The code of named source texts. -/
def generate (units : List (String × String)) (bootstrap : Bool) : Except EmitError (List String) :=
  go units (if bootstrap then Generator.addStart {} else (.ok (), {}))
where
  /-- Adds units to the code so far. -/
  go : List (String × String) → Except EmitError Unit × Generator → Except EmitError (List String)
    | _, (.error error, _) => .error error
    | [], (.ok (), g) => .ok g.lines
    | (name, source) :: units, (.ok (), g) => go units ((g.enterUnit name).addSource source)

/-! ### Compiling files -/

/-- Why a program cannot be compiled. -/
inductive CompileError where
  /-- The unit is no text. -/
  | encoding (fault : Utf8.Fault)
  /-- A line of a unit is no command. -/
  | reading (error : CommandError)
  /-- The line of the unit is at fault. -/
  | located (unit : String) (line : Nat) (error : EmitError)
  /-- The compiler is at fault. -/
  | internal (error : EmitError)
  deriving DecidableEq, Repr

/-- The message of an error. -/
def CompileError.message : CompileError → String
  | .encoding fault => fault.message
  | .reading error => error.message
  | .located unit line error => unit ++ ":" ++ toString line ++ ": " ++ error.message
  | .internal error => error.message

/-- A unit as a file holds it. -/
structure SourceFile where
  /-- Its path. -/
  path : Files.Path
  /-- Its content. -/
  bytes : ByteArray

/-- The text of a file, with both forms of a carriage return read as a line feed. -/
def textOfFile (bytes : ByteArray) : Except Utf8.Fault String :=
  (Utf8.decode bytes).map fun text => String.ofList (unifyNewlines text.toList)

/-- An error at a command of a file. -/
def CompileError.at (path : Files.Path) (c : Command) (error : EmitError) : CompileError :=
  if error.isInternal then .internal error else .located path.name c.line error

/-- Adds the code of a file. -/
def Generator.addFile (file : SourceFile) (g : Generator) : Except CompileError Generator :=
  match textOfFile file.bytes with
  | .error fault => .error (.encoding fault)
  | .ok source =>
    match readCommands source with
    | .error error => .error (.reading error)
    | .ok cs =>
      match (g.enterUnit file.path.stem).addCommands cs with
      | (.ok (), g) => .ok g
      | (.error (c, error), _) => .error (.at file.path c error)

/-- Adds the code of files. -/
def Generator.addFiles : List SourceFile → Generator → Except CompileError Generator
  | [], g => .ok g
  | file :: files, g => do (← g.addFile file).addFiles files

/-- The code of a program, with the code that starts it if that is wanted. -/
def compile (files : List SourceFile) (bootstrap comments : Bool) :
    Except CompileError (List String) := do
  let g : Generator := { comments }
  let g ← if bootstrap then
      match g.addStart with
      | (.ok (), g) => Except.ok g
      | (.error error, _) => .error (.internal error)
    else .ok g
  return (← g.addFiles files).lines

end HackToolchain.VM
