import HackToolchain.Cli.Options
import HackToolchain.Cli.Session
import HackToolchain.Machine.Trace

/-!
# The command `simulate`

Runs a program, in assembly language or as a binary image, under a schedule of memory writes, and
prints a report on the memory cells that are asked for.  A trace goes to the output or to a file.
-/

namespace HackToolchain.Cli.Simulate

open HackToolchain.Files HackToolchain.Text HackToolchain.Machine HackToolchain.Cli.Session

/-! ### Running programs -/

/-- The schedule in a file. -/
def readSchedule (name : String) : Action Schedule := do
  ofExcept .schedule (Schedule.ofBytes (← readExact name))

/-- The words of the program in a file. -/
def readProgram (name : String) : Action (Array Int) := do
  let bytes ← readBytes (Files.Path.ofText name)
  let text ← ofExcept .encoding (Utf8.decode bytes)
  ofExcept .assemble (Asm.readProgram name text)

/-- Where a trace goes. -/
inductive TraceTarget where
  /-- There is no trace. -/
  | nowhere
  /-- To the output. -/
  | output
  /-- To a file. -/
  | file (name : String)
  deriving DecidableEq, Repr

/-- Empties the file that a trace goes to. -/
def openTrace : TraceTarget → Action Unit
  | .file name => writeExact name ""
  | _ => pure ()

/-- Runs a machine, with a trace if one is wanted. -/
def runWith (c : Computer) (s : State) (trace : TraceTarget) : Action State := do
  let result ← match trace with
    | .nowhere => pure (c.run s)
    | .output => do
      let (text, result) := c.runTraced s
      print text
      pure result
    | .file name => do
      let (text, result) := c.runTraced s
      writeExact name text
      pure result
  match result with
  | .ok s => return s
  | .fault cause _ => fail (.machine cause)

/-- Runs the program in a file. -/
def runProgram (name : String) (schedule : Schedule) (ramWords tickLimit : Int)
    (trace : TraceTarget) : Action State := do
  let rom ← readProgram name
  let start ← ofExcept .capacity (State.allocate ramWords)
  runWith ⟨rom, schedule, tickLimit⟩ start trace

/-- The addresses that some requests name, in order, up to the first request that is missing or
cannot be read. -/
def addressesOf (requests : List (Option String)) : Action (List Int) := do
  let addresses ← requests.mapM fun request => do
    ofExcept .request (readRequest (← need .request request))
  return addresses.flatten

/-- The report on the cells of a state that some requests name. -/
def reportOn (s : State) (requests : List (Option String)) : Action String := do
  let addresses ← addressesOf requests
  ofExcept .report (report s.data.ram.values addresses)

/-! ### The command -/

/-- An argument. -/
inductive Given where
  /-- The program. -/
  | program (path : String)
  /-- The schedule. -/
  | schedule (path : Option String)
  /-- The number of memory cells. -/
  | ramWords (count : Option Int)
  /-- The tick limit. -/
  | ticks (limit : Option Int)
  /-- Memory cells to report on. -/
  | dump (request : Option String)
  /-- A trace is wanted. -/
  | trace
  /-- The file for the trace. -/
  | traceFile (path : Option String)
  deriving DecidableEq, Repr

/-- The arguments of the command. -/
def grammar : Grammar Given where
  names :=
    [⟨"-h", .help⟩, ⟨"--help", .help⟩, ⟨"--schedule", .text .schedule⟩,
      ⟨"--ram-words", .integer .ramWords⟩, ⟨"--ticks", .integer .ticks⟩,
      ⟨"--dump", .text .dump⟩, ⟨"--trace", .flag .trace⟩, ⟨"--trace-file", .text .traceFile⟩]
  operand := some .program

/-- What is asked for. -/
structure Request where
  /-- The program. -/
  program : String := ""
  /-- The schedule. -/
  schedule : Option String := none
  /-- The number of memory cells, unless it is missing. -/
  ramWords : Option Int := some MemoryMap.ramWords
  /-- The tick limit, unless it is missing. -/
  ticks : Option Int := some 100000
  /-- Memory cells to report on, in order; a request may be missing. -/
  dump : List (Option String) := []
  /-- A trace is wanted. -/
  trace : Bool := false
  /-- The file for the trace. -/
  traceFile : Option String := none
  deriving DecidableEq, Repr

/-- The request with one more argument. -/
def Request.add (r : Request) : Given → Request
  | .program path => { r with program := path }
  | .schedule path => { r with schedule := fileName path }
  | .ramWords count => { r with ramWords := count }
  | .ticks limit => { r with ticks := limit }
  | .dump request => { r with dump := r.dump ++ [request] }
  | .trace => { r with trace := true }
  | .traceFile path => { r with traceFile := fileName path }

/-- Where the trace goes that is asked for. -/
def Request.traceTarget (r : Request) : TraceTarget :=
  if r.trace then (r.traceFile.map TraceTarget.file).getD .output else .nowhere

/-- Runs the program, and gives the state at the end and the tick limit. -/
def runRequest (r : Request) : Action (State × Int) := do
  let schedule ← (r.schedule.map readSchedule).getD (pure [])
  let rom ← readProgram r.program
  let start ← ofExcept .capacity (State.allocate (← need .ramWords r.ramWords))
  match r.ticks with
  | some limit => do
    let s ← runWith ⟨rom, schedule, limit⟩ start r.traceTarget
    return (s, limit)
  | none => do
    -- the file of the trace is there before the limit is looked at
    openTrace r.traceTarget
    fail (.missing .tickLimit)

/-- Runs the program and prints the report. -/
def perform (r : Request) : Action Unit := do
  let (s, limit) ← runRequest r
  print (← reportOn s r.dump)
  unless s.halted do
    printLine ("(tick limit " ++ toString limit ++ " reached)")

/-- The command. -/
def command (arguments : List String) : Action Unit :=
  match grammar.parse arguments with
  | .error .help => throw (.exit 0)
  | .error .usage => throw (.exit 2)
  | .ok given => perform (given.foldl Request.add {})

end HackToolchain.Cli.Simulate
