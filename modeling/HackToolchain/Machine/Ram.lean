import HackToolchain.Machine.Fault
import HackToolchain.Asm.Word

/-!
# Data memory

A memory of sixteen-bit cells that grows on demand: an access beyond its end adds zero cells up to
the address.  A negative address counts from the end, and is refused if it leads beyond the
beginning.

An access is split in two, `locate` and then `get`, `grow` or `put`, so that only the first can
fail.
-/

namespace HackToolchain.Machine

open HackToolchain.Asm

/-- A memory.  It has at least one cell. -/
structure Ram where
  /-- The cells. -/
  cells : Array UInt16
  /-- There is at least one cell. -/
  size_pos : 0 < cells.size
  deriving DecidableEq, Repr

namespace Ram

/-- A memory of zero cells, of the given number if it is positive. -/
def zeros (words : Int) : Ram where
  cells := Array.replicate (max 1 words.toNat) 0
  size_pos := by
    rw [Array.size_replicate]
    omega

/-- The number of cells. -/
def size (ram : Ram) : Nat :=
  ram.cells.size

/-- The value of a cell; zero beyond the end. -/
def get (ram : Ram) (i : Nat) : Nat :=
  (ram.cells.getD i 0).toNat

/-- The cell that an address stands for. -/
def locate (ram : Ram) (address : Int) : Option Nat :=
  if address < 0 then place? ram.size address else some address.toNat

/-- The memory with at least enough cells for the one given. -/
def grow (ram : Ram) (i : Nat) : Ram where
  cells := ram.cells ++ Array.replicate (i + 1 - ram.cells.size) 0
  size_pos := by
    have := ram.size_pos
    simp only [Array.size_append]
    omega

/-- The memory with another value in a cell, of which the last sixteen bits are kept. -/
def put (ram : Ram) (i : Nat) (value : Int) : Ram where
  cells := (ram.grow i).cells.setIfInBounds i (UInt16.ofNat (Word.toNat value))
  size_pos := by
    have := (ram.grow i).size_pos
    simpa using this

/-- The values of all cells. -/
def values (ram : Ram) : Array Int :=
  ram.cells.map fun w => (w.toNat : Int)

/-! ### What a memory holds -/

theorem get_lt (ram : Ram) (i : Nat) : ram.get i < 0x10000 :=
  (ram.cells.getD i 0).toNat_lt

@[simp] theorem size_grow (ram : Ram) (i : Nat) : (ram.grow i).size = max ram.size (i + 1) := by
  simp only [size, grow, Array.size_append, Array.size_replicate]
  omega

@[simp] theorem size_put (ram : Ram) (i : Nat) (value : Int) :
    (ram.put i value).size = max ram.size (i + 1) := by
  rw [← size_grow]
  simp [size, put]

@[simp] theorem get_grow (ram : Ram) (i j : Nat) : (ram.grow i).get j = ram.get j := by
  simp only [get, grow, Array.getD_eq_getD_getElem?, Array.getElem?_append,
    Array.getElem?_replicate]
  split
  · rfl
  · rename_i h
    rw [Array.getElem?_eq_none (by omega)]
    split <;> rfl

theorem get_put (ram : Ram) (i j : Nat) (value : Int) :
    (ram.put i value).get j = if i = j then Word.toNat value else ram.get j := by
  rw [← get_grow ram i j]
  have hsize : i < (ram.grow i).cells.size := by
    have := size_grow ram i
    simp only [size] at this
    omega
  simp only [get, put, Array.getD_eq_getD_getElem?, Array.getElem?_setIfInBounds]
  by_cases h : i = j
  · subst h
    rw [if_pos rfl, if_pos rfl, if_pos hsize, Option.getD_some]
    exact UInt16.toNat_ofNat_of_lt (Word.toNat_lt value)
  · rw [if_neg h, if_neg h]

end Ram

end HackToolchain.Machine
