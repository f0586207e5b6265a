import HackToolchain.Machine.Capacity

/-!
# Faults of the machine

A machine step either ends well or stops at a fault; in both cases it leaves a state behind, and
what had been done before the fault is in it.
-/

namespace HackToolchain.Machine

/-- Why a step stops. -/
inductive Fault where
  /-- No memory cell can be read at the address. -/
  | ramRead (address : Int)
  /-- No memory cell can be written at the address. -/
  | ramWrite (address : Int)
  /-- There is no program word at the address. -/
  | romRead (address : Int)
  deriving DecidableEq, Repr

/-- The message for an address where nothing is found; one that is no index has another message. -/
def addressMessage (message : String) (address : Int) : String :=
  if address < -indexBound then CapacityError.index.message else message

/-- The message of a fault. -/
def Fault.message : Fault → String
  | .ramRead address | .romRead address => addressMessage "list index out of range" address
  | .ramWrite address => addressMessage "list assignment index out of range" address

/-- How a step ends, with the state that it leaves behind. -/
inductive Outcome (σ : Type) where
  /-- The step has been done. -/
  | ok (state : σ)
  /-- The step has stopped. -/
  | fault (cause : Fault) (state : σ)
  deriving DecidableEq, Repr

namespace Outcome

variable {σ τ : Type}

/-- The state left behind. -/
def state : Outcome σ → σ
  | .ok s => s
  | .fault _ s => s

/-- The fault, if there is one. -/
def cause? : Outcome σ → Option Fault
  | .ok _ => none
  | .fault cause _ => some cause

/-- The outcome with another view of its state. -/
def map (f : σ → τ) : Outcome σ → Outcome τ
  | .ok s => .ok (f s)
  | .fault cause s => .fault cause (f s)

/-- Goes on after a step that has been done. -/
def andThen (x : Outcome σ) (f : σ → Outcome σ) : Outcome σ :=
  match x with
  | .ok s => f s
  | .fault cause s => .fault cause s

@[simp] theorem state_map (f : σ → τ) (x : Outcome σ) : (x.map f).state = f x.state := by
  cases x <;> rfl

@[simp] theorem cause?_map (f : σ → τ) (x : Outcome σ) : (x.map f).cause? = x.cause? := by
  cases x <;> rfl

end Outcome

/-- The place of an index in a sequence: a negative one counts from the end. -/
def place? (size : Nat) (index : Int) : Option Nat :=
  let i := if index < 0 then index + size else index
  if 0 ≤ i ∧ i < size then some i.toNat else none

theorem place?_natCast {size i : Nat} (h : i < size) : place? size i = some i := by
  have hi : ¬ (i : Int) < 0 := by omega
  have hs : (0 : Int) ≤ i ∧ (i : Int) < size := by omega
  simp only [place?, if_neg hi, if_pos hs, Int.toNat_natCast]

end HackToolchain.Machine
