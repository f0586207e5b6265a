import HackToolchain.MemoryMap

/-!
# Memory segments

The eight segments that a stack-machine program can push from and pop to.  Four of them have a base
address in a register cell; a constant has no cell; the other three have cells that are known when
the program is compiled.
-/

namespace HackToolchain.VM

/-- A memory segment. -/
inductive Segment where
  /-- The constants. -/
  | constant
  /-- The local variables of a function. -/
  | local
  /-- The arguments of a function. -/
  | argument
  /-- The memory that the pointer `this` points to. -/
  | this
  /-- The memory that the pointer `that` points to. -/
  | that
  /-- The temporary cells. -/
  | temp
  /-- The two pointers themselves. -/
  | pointer
  /-- The static variables of a unit. -/
  | static
  deriving DecidableEq, Repr

namespace Segment

/-- The name of a segment. -/
def name : Segment → String
  | .constant => "constant"
  | .local => "local"
  | .argument => "argument"
  | .this => "this"
  | .that => "that"
  | .temp => "temp"
  | .pointer => "pointer"
  | .static => "static"

/-- All segments. -/
def all : List Segment :=
  [.constant, .local, .argument, .this, .that, .temp, .pointer, .static]

/-- The segment with the given name. -/
def ofName? (name : String) : Option Segment :=
  all.find? (·.name == name)

/-- The register cell that holds the base address of a segment. -/
def base? : Segment → Option Cell
  | .local => some .lcl
  | .argument => some .arg
  | .this => some .this
  | .that => some .that
  | _ => none

theorem ofName?_name (segment : Segment) : ofName? segment.name = some segment := by
  cases segment <;> decide

end Segment

end HackToolchain.VM
