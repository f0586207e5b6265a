import HackToolchain.Asm.Reading
import HackToolchain.Asm.Word
import Std.Data.TreeMap

/-!
# The assembler

A program is assembled in two passes.  The first binds each label to the number of instructions
before it.  The second turns each instruction into a word; a symbol that has no address by then is
a variable, and gets the next free cell from `MemoryMap.variableBase` on.

Addresses are held in fifteen bits; what goes beyond is cut off.
-/

namespace HackToolchain.Asm

/-- The addresses of symbols. -/
abbrev SymbolTable := Std.TreeMap String Nat compare

/-- The symbols that every program knows. -/
def SymbolTable.initial : SymbolTable :=
  MemoryMap.predefined.foldl (fun table entry => table.insert entry.1 entry.2) ∅

/-- Binds the labels of the statements, the first instruction of which has the address `pc`. -/
def bindLabels (pc : Nat) (table : SymbolTable) : List Statement → Except Error SymbolTable
  | [] => .ok table
  | .label name :: rest =>
    -- the table also has the predefined symbols, which no label may take
    if table.contains name then .error (.duplicateLabel name)
    else bindLabels pc (table.insert name pc) rest
  | _ :: rest => bindLabels (pc + 1) table rest

/-- The addresses of symbols during the second pass. -/
structure Allocation where
  /-- The addresses that are known. -/
  table : SymbolTable
  /-- The cell for the next variable. -/
  next : Nat := MemoryMap.variableBase

/-- The address of a symbol; a new one is allocated as a variable. -/
def Allocation.resolve (name : String) (alloc : Allocation) : Nat × Allocation :=
  match alloc.table[name]? with
  | some address => (address, alloc)
  | none => (alloc.next, ⟨alloc.table.insert name alloc.next, alloc.next + 1⟩)

/-- The word that loads an address. -/
def addressWord (address : Int) : Int :=
  address % (MemoryMap.maxAddress + 1)

/-- Turns statements into words, behind the words `done`. -/
def emitWords (alloc : Allocation) (done : Array Int) : List Statement → Array Int
  | [] => done
  | .label _ :: rest => emitWords alloc done rest
  | .address (.literal value) :: rest => emitWords alloc (done.push (addressWord value)) rest
  | .address (.symbol name) :: rest =>
    let (address, alloc) := alloc.resolve name
    emitWords alloc (done.push (addressWord address)) rest
  | .compute c :: rest => emitWords alloc (done.push c.encode) rest

/-- Assembles statements. -/
def assembleStatements (program : List Statement) : Except Error (Array Int) := do
  let table ← bindLabels 0 SymbolTable.initial program
  return emitWords ⟨table, MemoryMap.variableBase⟩ #[] program

/-- Assembles the lines of a program. -/
def assemble (lines : List String) : Except Error (Array Int) := do
  assembleStatements (← readStatements lines)

end HackToolchain.Asm
