import HackToolchain.MemoryMap
import HackToolchain.Text.LineBreak
import HackToolchain.Text.Numeral
import HackToolchain.Text.Utf8

/-!
# Scheduled writes

A schedule lists writes to memory from outside, each with the tick before which it is to happen.
The writes of one tick happen in the order in which they are listed.

In a schedule file each line holds a tick, an address and a value; a number sign starts a comment.
The tick is a decimal numeral, the value a numeral of any base, and the address either of them or a
predefined symbol.  Of a value the last sixteen bits are kept.
-/

namespace HackToolchain.Machine

open HackToolchain.Text

/-- A write to memory at a tick. -/
structure Event where
  /-- The tick before which it happens. -/
  tick : Int
  /-- The address of the cell. -/
  address : Int
  /-- The value. -/
  value : Int
  deriving DecidableEq, Repr

/-- Writes to memory, in the order in which they are listed. -/
abbrev Schedule := List Event

namespace Schedule

/-- The writes of a tick, in order. -/
def due (schedule : Schedule) (tick : Int) : List Event :=
  schedule.filter (·.tick == tick)

/-- There are writes at a tick after the one given. -/
def hasLater (schedule : Schedule) (tick : Int) : Bool :=
  schedule.any fun event => tick < event.tick

end Schedule

/-! ### Schedule files -/

/-- Why a schedule cannot be read. -/
inductive ScheduleError where
  /-- The line does not have three parts. -/
  | line (text : String)
  /-- A part is no numeral. -/
  | numeral (error : NumeralError)
  /-- The file is no text. -/
  | encoding (fault : Utf8.Fault)
  deriving DecidableEq, Repr

/-- The message of an error. -/
def ScheduleError.message : ScheduleError → String
  | .line text => "bad schedule line: " ++ quote text
  | .numeral error => error.message
  | .encoding fault => fault.message

/-- Reads an address: a predefined symbol, or a numeral of the base that it announces. -/
def readAddress (token : String) : Except NumeralError Int :=
  match MemoryMap.predefined? token with
  | some address => .ok address
  | none => readLiteral token

/-- Reads the three parts of an event. -/
def Event.ofTokens (tick address value : String) : Except NumeralError Event := do
  let tick ← readDecimal tick
  let address ← readAddress address
  let value ← readLiteral value
  return ⟨tick, address, value % 0x10000⟩

namespace Schedule

/-- Reads a line of a schedule; none if there is nothing on it. -/
def readLine (line : List Char) : Except ScheduleError (Option Event) :=
  match (tokens (before '#' line)).map String.ofList with
  | [] => .ok none
  | [tick, address, value] =>
    match Event.ofTokens tick address value with
    | .ok event => .ok (some event)
    | .error error => .error (.numeral error)
  | _ => .error (.line (String.ofList (strip line)))

/-- Reads the lines of a schedule, behind the events `done`. -/
def readLines (done : Array Event) : List (List Char) → Except ScheduleError (Array Event)
  | [] => .ok done
  | line :: lines =>
    match readLine line with
    | .error error => .error error
    | .ok none => readLines done lines
    | .ok (some event) => readLines (done.push event) lines

/-- The text without a carriage return at its end, which may be half of a line end. -/
def dropFinalReturn (cs : List Char) : List Char :=
  if cs.getLast? == some '\r' then cs.dropLast else cs

/-- The lines of a text, with the last one whether or not a line feed ends it. -/
def allLines (cs : List Char) : List (List Char) :=
  let (lines, rest) := feedLines (unifyNewlines cs)
  if rest.isEmpty then lines else lines ++ [rest]

/-- The lines of a text that more text was to follow: those that are complete. -/
def completeLines (cs : List Char) : List (List Char) :=
  (feedLines (unifyNewlines (dropFinalReturn cs))).1

/-- Reads a schedule from the bytes of a file.  The file is read block by block, so that an error in
a complete line is found before bytes in a later block that are no text. -/
def ofBytes (bytes : ByteArray) : Except ScheduleError Schedule :=
  match Utf8.decodeBlocks bytes with
  | (text, none) => (readLines #[] (allLines text.toList)).map Array.toList
  | (text, some fault) =>
    -- what has been read of the last line is lost
    match readLines #[] (completeLines text.toList) with
    | .error error => .error error
    | .ok _ => .error (.encoding fault)

end Schedule

end HackToolchain.Machine
