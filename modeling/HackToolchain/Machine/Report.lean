import HackToolchain.Asm.Word
import HackToolchain.Machine.Capacity
import HackToolchain.Machine.Fault
import HackToolchain.Machine.Schedule

/-!
# Memory reports

A report shows the stack pointer and then, as signed numbers, the memory cells that were asked for.
A request names one address, or with a hyphen the first and the last of a range.  Cells beyond the
end of the memory show as zero.
-/

namespace HackToolchain.Machine

open HackToolchain.Asm HackToolchain.Text

/-! ### Requests -/

/-- Why a request cannot be met. -/
inductive RequestError where
  /-- The address is no numeral. -/
  | numeral (error : NumeralError)
  /-- The range is too long. -/
  | capacity (error : CapacityError)
  deriving DecidableEq, Repr

/-- The message of an error. -/
def RequestError.message : RequestError → String
  | .numeral error => error.message
  | .capacity error => error.message

/-- The integers from the first to the last, ascending. -/
def addressRange (first last : Int) : List Int :=
  (List.range (last + 1 - first).toNat).map fun (i : Nat) => first + (i : Int)

/-- Reads an address of a request. -/
def readBound (cs : List Char) : Except RequestError Int :=
  (readAddress (String.ofList cs)).mapError .numeral

/-- The addresses that a request names. -/
def readRequest (request : String) : Except RequestError (List Int) :=
  let cs := request.toList
  if cs.contains '-' then do
    let first ← readBound (before '-' cs)
    let last ← readBound (after '-' cs)
    (checkCapacity .length (last + 1 - first)).mapError .capacity
    return addressRange first last
  else do
    return [← readBound cs]

/-- The addresses that some requests name, in order. -/
def readRequests (requests : List String) : Except RequestError (List Int) := do
  return (← requests.mapM readRequest).flatten

/-! ### Reports -/

/-- Why a report cannot be written. -/
inductive ReportError where
  /-- There is no cell at the address. -/
  | address (fault : Fault)
  /-- The address has no numeral. -/
  | numeral (error : NumeralError)
  deriving DecidableEq, Repr

/-- The message of an error. -/
def ReportError.message : ReportError → String
  | .address fault => fault.message
  | .numeral error => error.message

/-- The value of a cell as a report reads it. -/
def reportValue (cells : Array Int) (address : Int) : Except ReportError Int :=
  if (cells.size : Int) ≤ address then .ok 0
  else
    match place? cells.size address with
    | none => .error (.address (.ramRead address))
    | some i => .ok (cells.getD i 0)

/-- The line of a report for an address. -/
def reportLine (cells : Array Int) (address : Int) : Except ReportError String := do
  let value ← reportValue cells address
  match writeNumeral address with
  | .error error => .error (.numeral error)
  | .ok numeral => .ok ("RAM[" ++ numeral ++ "]| " ++ toString (Word.signed value))

/-- The report on the cells of a memory at the given addresses. -/
def report (cells : Array Int) (addresses : List Int) : Except ReportError String := do
  match cells[0]? with
  | none => .error (.address (.ramRead 0))
  | some pointer =>
    let lines ← addresses.mapM (reportLine cells)
    return unlines (("SP| " ++ toString pointer) :: lines)

end HackToolchain.Machine
