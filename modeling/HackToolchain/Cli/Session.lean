import HackToolchain.Asm.Image
import HackToolchain.Files.Sources
import HackToolchain.Machine.Report
import HackToolchain.VM.Program

/-!
# Sessions

What a command works on: a file tree, the directory that it starts in, and the two outputs.  A
command is a `Session.Action`.  It ends with a value, or it stops: with an exit code, or with a
failure that it does not handle.  What has been done before a stop stays done.
-/

namespace HackToolchain.Cli

open HackToolchain.Files HackToolchain.Text

/-- A value that a command needs, and that is missing though its option is there. -/
inductive MissingValue where
  /-- A tick limit to run up to. -/
  | tickLimit
  /-- A number of memory cells. -/
  | ramWords
  /-- A request for memory cells to report on. -/
  | request
  /-- The name of an example. -/
  | exampleName
  /-- A tick limit in place of that of an example. -/
  | exampleTicks
  /-- The directory of a record. -/
  | directory
  deriving DecidableEq, Repr

/-- The message for a missing value. -/
def MissingValue.message : MissingValue → String
  | .tickLimit => "'<' not supported between instances of 'int' and 'list'"
  | .ramWords => "'>' not supported between instances of 'list' and 'int'"
  | .request | .exampleName => "unhashable type: 'list'"
  | .exampleTicks =>
    "int() argument must be a string, a bytes-like object or a real number, not 'list'"
  | .directory => "unsupported operand type(s) for /: 'PosixPath' and 'list'"

/-- Any error of the library. -/
inductive Failure where
  /-- An error with a file. -/
  | file (error : FileError)
  /-- A file that is no text. -/
  | encoding (fault : Utf8.Fault)
  /-- A path that is no program. -/
  | sources (error : SourcesError)
  /-- A program that cannot be compiled. -/
  | compile (error : VM.CompileError)
  /-- A program that cannot be assembled. -/
  | assemble (error : Asm.Error)
  /-- A schedule that cannot be read. -/
  | schedule (error : Machine.ScheduleError)
  /-- A fault of the machine. -/
  | machine (fault : Machine.Fault)
  /-- A report that cannot be written. -/
  | report (error : Machine.ReportError)
  /-- A request that cannot be met. -/
  | request (error : Machine.RequestError)
  /-- A memory that cannot be made. -/
  | capacity (error : Machine.CapacityError)
  /-- A value that is missing. -/
  | missing (value : MissingValue)
  deriving DecidableEq, Repr

/-- The message of a failure. -/
def Failure.message : Failure → String
  | .file error => error.message
  | .encoding fault => fault.message
  | .sources error => error.message
  | .compile error => error.message
  | .assemble error => error.message
  | .schedule error => error.message
  | .machine fault => fault.message
  | .report error => error.message
  | .request error => error.message
  | .capacity error => error.message
  | .missing value => value.message

/-- Why a command stops. -/
inductive Stop where
  /-- It ends with an exit code. -/
  | exit (code : Nat)
  /-- It does not handle a failure. -/
  | failure (cause : Failure)
  deriving DecidableEq, Repr

/-- What a command works on. -/
structure Session where
  /-- The files. -/
  tree : Files.Tree
  /-- The directory that the command starts in. -/
  directory : Location
  /-- The output so far. -/
  out : String := ""
  /-- The error output so far. -/
  err : String := ""

namespace Session

/-- A part of a command. -/
abbrev Action (α : Type) := EStateM Stop Session α

/-- Stops with a failure. -/
def fail {α : Type} (cause : Failure) : Action α :=
  throw (.failure cause)

/-- Gives a value, or stops with a failure. -/
def ofExcept {ε α : Type} (wrap : ε → Failure) : Except ε α → Action α
  | .ok value => pure value
  | .error error => fail (wrap error)

/-- Gives the value of an option, or stops if it is missing. -/
def need {α : Type} (value : MissingValue) : Option α → Action α
  | some given => pure given
  | none => fail (.missing value)

/-- Writes to the output. -/
def print (text : String) : Action Unit :=
  modify fun s => { s with out := s.out ++ text }

/-- Writes a line to the output. -/
def printLine (text : String) : Action Unit :=
  print (text ++ "\n")

/-- Writes a line to the error output. -/
def printError (text : String) : Action Unit :=
  modify fun s => { s with err := s.err ++ (text ++ "\n") }

/-! ### Files -/

/-- The text of the path of the directory that the command starts in. -/
def directoryPath : Action Files.Path := do
  return .absolute (← get).directory

/-- What a path leads to. -/
def node? (path : Files.Path) : Action (Option Node) := do
  let s ← get
  ofExcept (fun fault => .file ⟨fault, path.text⟩) (s.tree.node? s.directory path)

/-- A path leads to something. -/
def doesExist (path : Files.Path) : Action Bool := do
  return (← node? path).isSome

/-- The content of the file that a path leads to; a fault is reported with the given text. -/
def readBytesAs (shown : String) (path : Files.Path) : Action ByteArray := do
  let s ← get
  ofExcept (fun fault => .file ⟨fault, shown⟩) (s.tree.read s.directory path)

/-- The content of the file that a path leads to. -/
def readBytes (path : Files.Path) : Action ByteArray :=
  readBytesAs path.text path

/-- The content of the file with exactly the given path. -/
def readExact (name : String) : Action ByteArray :=
  readBytesAs name (Files.Path.exact name)

/-- The text of the file that a path leads to, with both forms of a carriage return read as a line
feed. -/
def readText (path : Files.Path) : Action String := do
  ofExcept .encoding (VM.textOfFile (← readBytes path))

/-- Writes the file that a path leads to; a fault is reported with the given text. -/
def writeTextAs (shown : String) (path : Files.Path) (text : String) : Action Unit := do
  let s ← get
  let tree ← ofExcept (fun fault => .file ⟨fault, shown⟩)
    (s.tree.write s.directory path (Utf8.encode text))
  modify fun s => { s with tree := tree }

/-- Writes the file that a path leads to. -/
def writeText (path : Files.Path) (text : String) : Action Unit :=
  writeTextAs path.text path text

/-- Writes the file with exactly the given path. -/
def writeExact (name text : String) : Action Unit :=
  writeTextAs name (Files.Path.exact name) text

/-- Makes the directory with an absolute path, and those on the way to it.  What has been made stays
when one of them cannot be made. -/
def makeDirectories (path : Files.Path) : Action Unit := do
  let s ← get
  match s.tree.ensureDirectories path.parts with
  | .ok tree => set { s with tree }
  | .error stopped => do
    set { s with tree := stopped.tree }
    fail (.file ⟨stopped.fault, (Files.Path.absolute stopped.location).text⟩)

/-- Removes what is at an absolute path, and all below it. -/
def erase (path : Files.Path) : Action Unit :=
  modify fun s => { s with tree := s.tree.erase path.parts }

/-! ### Programs -/

/-- The source files of the program that a path leads to. -/
def sources (path : Files.Path) : Action Sources := do
  let s ← get
  ofExcept .sources (s.tree.sources s.directory path)

/-- The code of some source files. -/
def compile (files : List Files.Path) (bootstrap comments : Bool) : Action (List String) := do
  let files ← files.mapM fun path => return (⟨path, ← readBytes path⟩ : VM.SourceFile)
  ofExcept .compile (VM.compile files bootstrap comments)

/-- The words of some code. -/
def assemble (code : List String) : Action (List Int) := do
  return (← ofExcept .assemble (Asm.assemble code)).toList

end Session

end HackToolchain.Cli
