/-!
# Capacity

How many things can be held at once: the cells of a memory when it is made, or the addresses of a
range.  A number that is no index is refused for that, and a smaller one that is still out of
reach for want of memory.
-/

namespace HackToolchain.Machine

/-- Why so many things cannot be held. -/
inductive CapacityError where
  /-- The number of cells is no index. -/
  | index
  /-- The length of the range is no index. -/
  | length
  /-- There is not that much memory. -/
  | memory
  deriving DecidableEq, Repr

/-- The message of an error. -/
def CapacityError.message : CapacityError → String
  | .index => "cannot fit 'int' into an index-sized integer"
  | .length => "Python int too large to convert to C ssize_t"
  | .memory => ""

/-- The least number that is no index. -/
def indexBound : Int := 0x8000000000000000

/-- The least number of things that are out of reach. -/
def memoryBound : Int := 0x100000000

/-- Checks that so many things can be held; `error` is the error for a number that is no index. -/
def checkCapacity (error : CapacityError) (count : Int) : Except CapacityError Unit :=
  if indexBound ≤ count then .error error
  else if memoryBound ≤ count then .error .memory
  else .ok ()

end HackToolchain.Machine
