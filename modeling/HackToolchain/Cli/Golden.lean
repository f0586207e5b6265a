import HackToolchain.Cli.Simulate
import HackToolchain.Text.Difference

/-!
# The command `golden`

Keeps the products of some example programs as a record.  Without `--verify` it compiles and runs
each example and writes the record: the source, the schedule, the code, the listing, the report and
a description.  With it, it compares what the example gives now with the record, and shows the
differences.

The examples are in the directory `examples` and the record goes to the directory `golden`, both
inside the directory that the command starts in.
-/

namespace HackToolchain.Cli.Golden

open HackToolchain.Files HackToolchain.Text HackToolchain.Cli.Session

/-! ### Examples -/

/-- An example. -/
structure Example where
  /-- Its name. -/
  name : String
  /-- The program, inside the directory of the examples. -/
  source : String
  /-- The schedule, inside the directory of the examples. -/
  schedule : Option String := none
  /-- The tick limit. -/
  ticks : Int
  /-- Memory cells to report on. -/
  dump : List String
  deriving DecidableEq, Repr

/-- The examples. -/
def examples : List Example :=
  [{ name := "simple_add", source := "simple_add.vm", schedule := some "simple_add.input",
     ticks := 1000, dump := ["256"] },
   { name := "stack_compare", source := "stack_compare.vm",
     schedule := some "stack_compare.input", ticks := 2000, dump := ["256-260"] },
   { name := "basic_loop", source := "basic_loop.vm", schedule := some "basic_loop.input",
     ticks := 2000, dump := ["256", "300"] },
   { name := "basic_test", source := "basic_test.vm", schedule := some "basic_test.input",
     ticks := 2000, dump := ["256", "300", "401", "3006", "3015", "11"] },
   { name := "pointer_test", source := "pointer_test.vm", schedule := some "pointer_test.input",
     ticks := 2000, dump := ["3", "4", "256", "3032", "3046"] },
   { name := "statics", source := "StaticsTest", ticks := 10000, dump := ["261-262"] },
   { name := "fibonacci", source := "FibonacciElement", ticks := 50000, dump := ["261"] }]

/-- The path of something inside the directory of the examples. -/
def examplePath (name : String) : Action Files.Path := do
  return ((← directoryPath).child "examples").child name

/-! ### Arguments -/

/-- An argument. -/
inductive Given where
  /-- The directory of the record. -/
  | directory (path : Option String)
  /-- An example to take. -/
  | only (name : Option String)
  /-- The tick limit of all examples. -/
  | ticks (limit : Option Int)
  /-- A trace is wanted in the record. -/
  | trace
  /-- The record is to be compared and not written. -/
  | verify
  /-- The code is to be compared too. -/
  | checkCode
  /-- The first difference is to end the command. -/
  | failFast
  deriving DecidableEq, Repr

/-- The arguments of the command. -/
def grammar : Grammar Given where
  names :=
    [⟨"-h", .help⟩, ⟨"--help", .help⟩, ⟨"--out-dir", .text .directory⟩, ⟨"--only", .text .only⟩,
      ⟨"--ticks", .integer .ticks⟩, ⟨"--trace", .flag .trace⟩, ⟨"--verify", .flag .verify⟩,
      ⟨"--check-asm", .flag .checkCode⟩, ⟨"--fail-fast", .flag .failFast⟩]
  operand := none

/-- What is asked for. -/
structure Request where
  /-- The directory of the record, unless it is missing. -/
  directory : Option String := some "golden"
  /-- The examples to take, all if there are none; a name may be missing. -/
  only : List (Option String) := []
  /-- The tick limit of all examples, instead of their own; it may be asked for and missing. -/
  ticks : Option (Option Int) := none
  /-- A trace is wanted in the record. -/
  trace : Bool := false
  /-- The record is to be compared and not written. -/
  verify : Bool := false
  /-- The code is to be compared too. -/
  checkCode : Bool := false
  /-- The first difference is to end the command. -/
  failFast : Bool := false
  deriving DecidableEq, Repr

/-- The request with one more argument. -/
def Request.add (r : Request) : Given → Request
  | .directory path => { r with directory := path }
  | .only name => { r with only := r.only ++ [name] }
  | .ticks limit => { r with ticks := some limit }
  | .trace => { r with trace := true }
  | .verify => { r with verify := true }
  | .checkCode => { r with checkCode := true }
  | .failFast => { r with failFast := true }

/-- The examples to take. -/
def Request.examples (r : Request) : Action (List Example) := do
  let names ← r.only.mapM (need .exampleName)
  return if names.isEmpty then Golden.examples
    else Golden.examples.filter fun e => names.contains e.name

/-- The tick limit of an example. -/
def Request.ticksFor (r : Request) (e : Example) : Action Int :=
  match r.ticks with
  | none => pure e.ticks
  | some limit => need .exampleTicks limit

/-! ### Writing the record -/

/-- Writes a file, and makes its directory if there is none. -/
def writeInto (directory : Files.Path) (name text : String) : Action Unit := do
  makeDirectories directory
  writeText (directory.child name) text

/-- The code of the program that a path leads to, as text, and its listing. -/
def build (source : Files.Path) : Action (String × String) := do
  let found ← sources source
  let code ← compile found.files found.isDirectory false
  return (unlines code, Asm.listing (← assemble code))

/-- The report of a run of the code in a directory. -/
def runIn (directory : Files.Path) (schedule : Option Files.Path) (ticks : Int)
    (dump : List String) (trace : Simulate.TraceTarget) : Action String := do
  let schedule ← match schedule with
    | some path => Simulate.readSchedule path.text
    | none => pure []
  let program := (directory.child "program.asm").text
  let s ← Simulate.runProgram program schedule MemoryMap.ramWords ticks trace
  Simulate.reportOn s (dump.map some)

/-- Why a directory cannot be copied.  A copy inside of what is copied would be copied again and
again, until its paths are too long. -/
def copyError? (tree : Files.Tree) (source : Location) (target : Files.Path) : Option FileError :=
  if (tree.lookup source).isNone then some ⟨.notFound, (Files.Path.absolute source).text⟩
  else if source.isPrefixOf target.parts then some ⟨.nameTooLong, target.text⟩
  else none

/-- Puts a copy of a directory at an absolute path with nothing there. -/
def copyDirectory (source : Location) (target : Files.Path) : Action Unit := do
  let s ← get
  match copyError? s.tree source target with
  | some error => fail (.file error)
  | none => set { s with tree := s.tree.copy source target.parts }

/-- Puts a copy of a directory at an absolute path, in place of a directory that is there. -/
def keepDirectory (source : Location) (target : Files.Path) : Action Unit := do
  if let some (.file _) ← node? target then
    fail (.file ⟨.notDirectory, target.text⟩)
  erase target
  copyDirectory source target

/-- Copies the program that a path leads to into the record, and gives the name of the copy. -/
def keepSource (source directory : Files.Path) : Action String := do
  let s ← get
  match s.tree.isDirectory s.directory source, s.tree.locate s.directory source with
  | .ok true, .ok location => do
    keepDirectory location (directory.child "src")
    return "src"
  | _, _ => do
    writeInto directory "program.vm" (← readText source)
    return "program.vm"

/-- The elements of a list, as lines of a description. -/
def listLines (items : List String) : List String :=
  match items with
  | [] => []
  | [item] => ["    \"" ++ item ++ "\""]
  | item :: items => ("    \"" ++ item ++ "\",") :: listLines items

/-- The description of an example. -/
def description (e : Example) (source : String) (ticks : Int) : String :=
  unlines <|
    ["\x7b",
      "  \"name\": \"" ++ e.name ++ "\",",
      "  \"source\": \"" ++ source ++ "\",",
      "  \"ticks\": " ++ toString ticks ++ ",",
      "  \"ram_words\": " ++ toString MemoryMap.ramWords ++ ",",
      "  \"dump\": ["] ++ listLines e.dump ++
    ["  ]",
      "\x7d"]

/-- Writes the record of an example into a directory. -/
def record (e : Example) (ticks : Int) (trace : Bool) (directory : Files.Path) : Action Unit := do
  let source ← examplePath e.source
  let schedule ← e.schedule.mapM examplePath
  makeDirectories directory
  -- what the example is made of
  let copied ← keepSource source directory
  if let some path := schedule then
    if ← doesExist path then
      writeInto directory "schedule.txt" (← readText path)
  -- what it is compiled to
  let (code, listing) ← build source
  writeInto directory "program.asm" code
  writeInto directory "program.hex" listing
  -- what it does
  let target : Simulate.TraceTarget :=
    if trace then .file (directory.child "trace.txt").text else .nowhere
  writeInto directory "out.txt" (← runIn directory schedule ticks e.dump target)
  writeInto directory "meta.json" (description e copied ticks)

/-! ### Comparing with the record -/

/-- The text of a file; nothing if there is no file. -/
def readRecorded (path : Files.Path) : Action String := do
  if ← doesExist path then readText path else return ""

/-- The lines of a text. -/
def linesOf (text : String) : Array String :=
  ((splitLines text.toList).map String.ofList).toArray

/-- Compares a file of the record with a text, and prints the difference. -/
def compareWith (e : Example) (directory : Files.Path) (file fresh : String) : Action Bool := do
  let recorded ← readRecorded (directory.child file)
  if fresh = recorded then return true
  else
    printLine ("[mismatch][" ++ e.name ++ "] " ++ file ++ " differs")
    for line in Difference.unified ("golden/" ++ file) ("fresh/" ++ file) (linesOf recorded)
        (linesOf fresh) do
      printLine line
    return false

/-- Performs an action, and another one after it, whether or not it stops. -/
def withCleanUp {α : Type} (action : Action α) (cleanUp : Action Unit) : Action α := do
  let value ← tryCatch action fun stop => do
    cleanUp
    throw stop
  cleanUp
  return value

/-- Compares an example with its record in a directory. -/
def verify (e : Example) (ticks : Int) (checkCode : Bool) (directory : Files.Path) :
    Action Bool := do
  let (code, _) ← build (← examplePath e.source)
  let recordedSchedule := directory.child "schedule.txt"
  let schedule := if ← doesExist recordedSchedule then some recordedSchedule else none
  -- the run takes its program from a file of its own, so that the record stays as it is
  let work := directory.child ".fresh"
  writeInto work "program.asm" code
  let out ← withCleanUp (runIn work schedule ticks e.dump .nowhere) (erase work)
  let sameOut ← compareWith e directory "out.txt" out
  let sameCode ← if checkCode then compareWith e directory "program.asm" code else pure true
  return sameOut && sameCode

/-! ### The command -/

/-- The directory of the record. -/
def recordPath (r : Request) : Action Files.Path := do
  let name ← need .directory r.directory
  if Tree.hasNul name then fail (.file ⟨.nulCharacter, name⟩)
  return ((← directoryPath).join (Files.Path.ofText name)).dropParents

/-- Writes the record of some examples. -/
def recordAll (r : Request) (directory : Files.Path) (examples : List Example) : Action Unit :=
  for e in examples do
    let ticks ← r.ticksFor e
    let target := directory.child e.name
    printLine ("[golden] Generating " ++ e.name ++ " -> " ++ target.text)
    record e ticks r.trace target

/-- Compares some examples with the record, and says whether all of them agree. -/
def verifyAll (r : Request) (directory : Files.Path) : List Example → Action Bool
  | [] => return true
  | e :: rest => do
    let ticks ← r.ticksFor e
    printLine ("[verify] " ++ e.name)
    let same ← verify e ticks r.checkCode (directory.child e.name)
    if !same && r.failFast then throw (.exit 1)
    return (← verifyAll r directory rest) && same

/-- Writes the record, or compares with it. -/
def perform (r : Request) : Action Unit := do
  let directory ← recordPath r
  let examples ← r.examples
  if r.verify then
    let same ← verifyAll r directory examples
    unless same do throw (.exit 1)
    printLine "[verify] all tests OK"
  else
    recordAll r directory examples

/-- The command. -/
def command (arguments : List String) : Action Unit :=
  match grammar.parse arguments with
  | .error .help => throw (.exit 0)
  | .error .usage => throw (.exit 2)
  | .ok given => perform (given.foldl Request.add {})

end HackToolchain.Cli.Golden
