import HackToolchain.Asm.Statement
import HackToolchain.VM.Command
import HackToolchain.VM.Segment

/-!
# Emitting code

The code for a command is a list of lines, which depends on a *scope*: the unit whose static
variables are named, the function whose labels are named, and a counter that keeps generated labels
apart.

An `Emitter` maps a scope to an `Emission`: the lines, the scope afterwards, and a value or the
error that stopped it.  The lines emitted before an error are kept.  Since an emitter does not see
the lines that others have emitted, the code for a command is the same wherever it stands.
-/

namespace HackToolchain.VM

open HackToolchain.Asm HackToolchain.Text

/-- What names depend on. -/
structure Scope where
  /-- The unit, which names static variables. -/
  unitName : String := "Static"
  /-- The function, which names labels; empty outside of functions. -/
  functionName : String := ""
  /-- The number of the next generated label. -/
  labelsUsed : Int := 0
  deriving DecidableEq, Repr

/-- A line of code. -/
inductive Line where
  /-- A comment. -/
  | comment (text : String)
  /-- A statement. -/
  | statement (value : Statement)
  deriving DecidableEq, Repr

/-- The text of a line. -/
def Line.text : Line → String
  | .comment text => "// " ++ text
  | .statement value => value.text

/-! ### Errors -/

/-- An area whose cells are counted. -/
inductive Area where
  /-- The constants. -/
  | constant
  /-- The temporary cells. -/
  | temp
  /-- The pointers. -/
  | pointer
  deriving DecidableEq, Repr

namespace Area

/-- The name of an area. -/
def name : Area → String
  | .constant => "constant"
  | .temp => "temp"
  | .pointer => "pointer"

/-- The greatest index into an area. -/
def last : Area → Int
  | .constant => MemoryMap.maxAddress
  | .temp => MemoryMap.tempSize - 1
  | .pointer => 1

end Area

/-- Why no code can be emitted for a command. -/
inductive EmitError where
  /-- The command lacks an argument. -/
  | command (error : CommandError)
  /-- There is no such segment. -/
  | segment (name : String)
  /-- The index lies outside of the area. -/
  | index (area : Area) (shown : String)
  /-- A number in the code has no numeral. -/
  | numeral (error : NumeralError)
  /-- Nothing can be popped into a constant. -/
  | popConstant
  /-- The kind of command does not access memory. -/
  | notAccess (kind : Kind)
  /-- There is no such arithmetic command. -/
  | operation (text : String)
  /-- The cells of the segment have no address that is known. -/
  | notKnown (segment : Segment)
  /-- The command is of no kind. -/
  | noKind
  deriving DecidableEq, Repr

/-- The message of an error. -/
def EmitError.message : EmitError → String
  | .command error => error.message
  | .segment name => "bad segment " ++ quote name
  | .index area shown => area.name ++ " index out of range: " ++ shown
  | .numeral error => error.message
  | .popConstant => "pop constant is invalid"
  | .notAccess kind => "not a push/pop command: " ++ kind.name
  | .operation text => "unknown arithmetic command " ++ quote text
  | .notKnown s => "segment " ++ s.name ++ " is not directly addressed"
  | .noKind => "unhandled command kind: None"

/-- The error shows a fault of the compiler and not of the program. -/
def EmitError.isInternal : EmitError → Bool
  | .notKnown _ | .noKind => true
  | _ => false

/-! ### Emitters -/

/-- What has been emitted. -/
structure Emission (α : Type) where
  /-- The lines. -/
  lines : List Line
  /-- The scope afterwards. -/
  scope : Scope
  /-- A value, or the error that stopped it. -/
  result : Except EmitError α

/-- Emits lines in a scope. -/
def Emitter (α : Type) : Type :=
  Scope → Emission α

namespace Emitter

variable {α β : Type}

/-- Emits nothing and gives a value. -/
def done (value : α) : Emitter α :=
  fun scope => ⟨[], scope, .ok value⟩

/-- Emits what two emitters emit, the second of which depends on the value of the first. -/
def andThen (x : Emitter α) (f : α → Emitter β) : Emitter β :=
  fun scope =>
    match x scope with
    | ⟨lines, scope, .error error⟩ => ⟨lines, scope, .error error⟩
    | ⟨lines, scope, .ok value⟩ =>
      match f value scope with
      | ⟨more, scope, result⟩ => ⟨lines ++ more, scope, result⟩

instance : Monad Emitter where
  pure := done
  bind := andThen

/-- Stops with an error. -/
def fail (error : EmitError) : Emitter α :=
  fun scope => ⟨[], scope, .error error⟩

/-- Emits lines. -/
def emit (lines : List Line) : Emitter Unit :=
  fun scope => ⟨lines, scope, .ok ()⟩

/-- Emits statements. -/
def statements (code : List Statement) : Emitter Unit :=
  emit (code.map Line.statement)

/-- Gives the scope. -/
def scope : Emitter Scope :=
  fun scope => ⟨[], scope, .ok scope⟩

/-- Changes the scope. -/
def setScope (scope : Scope) : Emitter Unit :=
  fun _ => ⟨[], scope, .ok ()⟩

/-- Gives a value, or stops with an error. -/
def ofExcept {ε : Type} (wrap : ε → EmitError) : Except ε α → Emitter α
  | .ok value => done value
  | .error error => fail (wrap error)

/-- Gives the numeral of a number. -/
def numeral (n : Int) : Emitter String :=
  ofExcept EmitError.numeral (writeNumeral n)

@[simp] theorem bind_eq (x : Emitter α) (f : α → Emitter β) : x >>= f = andThen x f := rfl

@[simp] theorem pure_eq (value : α) : (pure value : Emitter α) = done value := rfl

theorem done_andThen (value : α) (f : α → Emitter β) : andThen (done value) f = f value := by
  funext scope
  simp [andThen, done]

theorem fail_andThen (error : EmitError) (f : α → Emitter β) :
    andThen (fail error) f = fail error := rfl

end Emitter

end HackToolchain.VM
