import HackToolchain.VM.Emission

/-!
# The code of the stack machine

What each command becomes.  The stack grows upwards from `MemoryMap.stackBase`; `SP` holds the
address of the first free cell.

* A push brings the value into `D` and stores it at `SP`; a pop into a segment first puts the
  address of the target into `R13`.
* A comparison subtracts and branches on the difference; true is minus one, and false is zero.
* A call pushes the return address and the four base cells, and makes `ARG` point to the arguments
  and `LCL` to the first free cell.  A return undoes this: it reads the return address before the
  result overwrites the first argument, which is the place of the return address in a call
  without arguments.
-/

namespace HackToolchain.VM

open HackToolchain.Asm HackToolchain.Text

/-! ### Statements -/

namespace Code

/-- Loads the address of a register cell. -/
def atCell (cell : Cell) : Statement :=
  .address (.symbol cell.symbol)

/-- Loads a number. -/
def atNumber (n : Int) : Statement :=
  .address (.literal n)

/-- Loads the address that a symbol stands for. -/
def atSymbol (name : String) : Statement :=
  .address (.symbol name)

/-- Sets the register `A`. -/
def setA (comp : Comp) : Statement :=
  .compute { dest := ⟨[.a], by decide⟩, comp }

/-- Sets the register `D`. -/
def setD (comp : Comp) : Statement :=
  .compute { dest := ⟨[.d], by decide⟩, comp }

/-- Sets the memory cell that `A` points to. -/
def setM (comp : Comp) : Statement :=
  .compute { dest := ⟨[.m], by decide⟩, comp }

/-- Sets the register `A` and the memory cell that it pointed to. -/
def setAM (comp : Comp) : Statement :=
  .compute { dest := ⟨[.a, .m], by decide⟩, comp }

/-- Jumps to the address in `A`. -/
def jump : Statement :=
  .compute { comp := .zero, jump := .always }

/-- Jumps to the address in `A`, by the sign of `D`. -/
def jumpIf (condition : Jump) : Statement :=
  .compute { comp := .d, jump := condition }

/-! ### Blocks -/

/-- Puts `D` on the stack. -/
def pushData : List Statement :=
  [atCell .sp, setA (.get .m), setM .d, atCell .sp, setM (.inc .m)]

/-- Takes the top of the stack into `D`; `A` then holds its address. -/
def popData : List Statement :=
  [atCell .sp, setAM (.dec .m), setD (.get .m)]

/-- Puts the content of a register cell on the stack. -/
def pushCell (cell : Cell) : List Statement :=
  [atCell cell, setD (.get .m)] ++ pushData

/-- Copies `D` into a register cell. -/
def storeData (cell : Cell) : List Statement :=
  [atCell cell, setM .d]

/-- Copies the content of a register cell into `D`. -/
def loadData (cell : Cell) : List Statement :=
  [atCell cell, setD (.get .m)]

/-- Puts zero on the stack. -/
def pushZero : List Statement :=
  [atCell .sp, setA (.get .m), setM .zero, atCell .sp, setM (.inc .m)]

/-- Pops into the cell that `R13` points to. -/
def popToTarget : List Statement :=
  popData ++ [atCell .r13, setA (.get .m), setM .d]

/-- Pushes the cell at the given index of the segment whose base a register cell holds. -/
def pushIndexed (base : Cell) (index : Int) : List Statement :=
  [atNumber index, setD (.get .a), atCell base, setA (.add .m .dFirst), setD (.get .m)]

/-- Puts the address of such a cell into `R13`. -/
def targetIndexed (base : Cell) (index : Int) : List Statement :=
  [atNumber index, setD (.get .a), atCell base, setD (.add .m .dFirst)] ++ storeData .r13

/-- Restores a base cell from the frame, of which `R13` holds the end. -/
def restore (offset : Int) (cell : Cell) : List Statement :=
  loadData .r13 ++ [atNumber offset, setA (.sub .a), setD (.get .m)] ++ storeData cell

/-- The number of cells in a frame: the return address and the four base cells. -/
def frameCells : Int := 5

/-- The cells that a call saves, in the order in which it pushes them. -/
def savedCells : List Cell := [.lcl, .arg, .this, .that]

/-- Makes `ARG` point to the arguments below the frame, and `LCL` to the first free cell. -/
def enterFrame (distance : Int) : List Statement :=
  loadData .sp ++ [atNumber distance, setD (.sub .a)] ++ storeData .arg ++
    loadData .sp ++ storeData .lcl

/-- Returns to the caller. -/
def returnCode : List Statement :=
  -- `R13` holds the end of the frame, and `R14` the return address at its other end
  loadData .lcl ++ storeData .r13 ++
    [atNumber frameCells, setA (.sub .a), setD (.get .m)] ++ storeData .r14 ++
    -- the result takes the place of the first argument, and the stack ends right after it
    popData ++ [atCell .arg, setA (.get .m), setM .d] ++
    [atCell .arg, setD (.inc .m)] ++ storeData .sp ++
    -- the base cells, the one pushed last first
    restore 1 .that ++ restore 2 .this ++ restore 3 .arg ++ restore 4 .lcl ++
    [atCell .r14, setA (.get .m), jump]

/-- The code of a comparison, between the two labels that it declares. -/
def compareCode (condition : Jump) (yes finish : String) : List Statement :=
  -- the value below the top less the one on top
  popData ++ [setA (.dec .a), setD (.subD .m)] ++
    [atSymbol yes, jumpIf condition] ++
    -- the result overwrites the value below the top
    [atCell .sp, setA (.dec .m), setM .zero, atSymbol finish, jump] ++
    [.label yes, atCell .sp, setA (.dec .m), setM .minusOne] ++
    [.label finish]

end Code

/-! ### Arithmetic -/

/-- An arithmetic command. -/
inductive Operation where
  /-- The sum of the two values on top. -/
  | add
  /-- The value below the top less the one on top. -/
  | sub
  /-- The value on top negated. -/
  | neg
  /-- Whether the two values on top are equal. -/
  | eq
  /-- Whether the value below the top is greater than the one on top. -/
  | gt
  /-- Whether the value below the top is less than the one on top. -/
  | lt
  /-- The bitwise conjunction of the two values on top. -/
  | and
  /-- The bitwise disjunction of the two values on top. -/
  | or
  /-- The complement of the value on top. -/
  | not
  deriving DecidableEq, Repr

namespace Operation

/-- The text of an arithmetic command. -/
def name : Operation → String
  | .add => "add"
  | .sub => "sub"
  | .neg => "neg"
  | .eq => "eq"
  | .gt => "gt"
  | .lt => "lt"
  | .and => "and"
  | .or => "or"
  | .not => "not"

/-- All arithmetic commands. -/
def all : List Operation :=
  [.add, .sub, .neg, .eq, .gt, .lt, .and, .or, .not]

/-- The arithmetic command with the given text. -/
def ofName? (name : String) : Option Operation :=
  all.find? (·.name == name)

theorem ofName?_name (op : Operation) : ofName? op.name = some op := by
  cases op <;> decide

end Operation

namespace Emitter

open Code

/-- Emits the code of an operation on the top of the stack, as a computation. -/
def unary (comp : Comp) : Emitter Unit :=
  statements [atCell .sp, setA (.dec .m), setM comp]

/-- Emits the code of an operation on the two values on top, as a computation. -/
def binary (comp : Comp) : Emitter Unit := do
  statements popData
  statements [setA (.dec .a), setM comp]

/-- Takes the number of the next generated label. -/
def nextLabel : Emitter Int := do
  let s ← scope
  setScope { s with labelsUsed := s.labelsUsed + 1 }
  return s.labelsUsed

/-- Emits the code of a comparison. -/
def compare (condition : Jump) : Emitter Unit := do
  let n ← numeral (← nextLabel)
  statements (compareCode condition ("TRUE_" ++ n) ("END_" ++ n))

/-- Emits the code of an arithmetic command. -/
def operation : Operation → Emitter Unit
  | .add => binary (.add .m .dFirst)
  | .sub => binary (.subD .m)
  | .and => binary (.and .m .dFirst)
  | .or => binary (.or .m .dFirst)
  | .neg => unary (.neg .m)
  | .not => unary (.not .m)
  | .eq => compare .eq
  | .gt => compare .gt
  | .lt => compare .lt

/-- Emits the code of the arithmetic command with the given text. -/
def arithmetic (text : String) : Emitter Unit :=
  match Operation.ofName? text with
  | some op => operation op
  | none => fail (.operation text)

/-! ### Memory access -/

/-- Stops unless an index lies in an area. -/
def checkIndex (area : Area) (index : Int) : Emitter Unit := do
  if 0 ≤ index ∧ index ≤ area.last then
    return ()
  else
    fail (.index area (← numeral index))

/-- Gives the address of a cell that is known, of a segment without a base. -/
def knownAddress (segment : Segment) (index : Int) : Emitter Address :=
  match segment with
  | .temp => do
    checkIndex .temp index
    return .literal (MemoryMap.tempBase + index)
  | .pointer => do
    checkIndex .pointer index
    return .symbol (if index = 0 then Cell.this else Cell.that).symbol
  | .static => do
    let n ← numeral index
    return .symbol ((← scope).unitName ++ "." ++ n)
  | _ => fail (.notKnown segment)

/-- Stops unless a number has a numeral. -/
def checkNumeral (n : Int) : Emitter Unit := do
  let _ ← numeral n

/-- Emits the code of a push. -/
def push (segment : Segment) (index : Int) : Emitter Unit := do
  match segment, segment.base? with
  | .constant, _ =>
    checkIndex .constant index
    statements [atNumber index, setD (.get .a)]
  | _, some base =>
    checkNumeral index
    statements (pushIndexed base index)
  | _, none =>
    statements [.address (← knownAddress segment index), setD (.get .m)]
  statements pushData

/-- Emits the code of a pop. -/
def pop (segment : Segment) (index : Int) : Emitter Unit := do
  match segment, segment.base? with
  | .constant, _ => fail .popConstant
  | _, some base =>
    checkNumeral index
    statements (targetIndexed base index)
  | _, none =>
    statements ([.address (← knownAddress segment index), setD (.get .a)] ++ storeData .r13)
  statements popToTarget

/-- Gives the segment with the given name. -/
def segment (name : String) : Emitter Segment :=
  match Segment.ofName? name with
  | some segment => done segment
  | none => fail (.segment name)

/-- Emits the code of a command that accesses memory. -/
def access (kind : Kind) (segmentName : String) (index : Int) : Emitter Unit := do
  let s ← segment segmentName
  match kind with
  | .push => push s index
  | .pop => pop s index
  | kind => fail (.notAccess kind)

/-! ### Branches -/

/-- Gives the name that a label has in the program: outside of functions its own, and otherwise with
the name of the function in front. -/
def qualified (label : String) : Emitter String := do
  let s ← scope
  return if s.functionName.isEmpty then label else s.functionName ++ "$" ++ label

/-- Emits the declaration of a label. -/
def label (name : String) : Emitter Unit := do
  statements [.label (← qualified name)]

/-- Emits the jump to a label. -/
def goto (name : String) : Emitter Unit := do
  statements [atSymbol (← qualified name), jump]

/-- Emits the jump to a label that is taken if the value popped is not zero. -/
def ifGoto (name : String) : Emitter Unit := do
  statements popData
  statements [atSymbol (← qualified name), jumpIf .ne]

/-! ### Functions -/

/-- Emits the beginning of a function, which puts its local variables on the stack. -/
def function (name : String) (locals : Int) : Emitter Unit := do
  setScope { (← scope) with functionName := name }
  statements (.label name :: (List.replicate locals.toNat pushZero).flatten)

/-- Emits the code of a call. -/
def call (name : String) (arguments : Int) : Emitter Unit := do
  let n ← numeral (← nextLabel)
  let back := "RET_" ++ n
  -- the frame
  statements ([atSymbol back, setD (.get .a)] ++ pushData)
  statements (savedCells.flatMap pushCell)
  -- the arguments end where the frame begins
  checkNumeral (frameCells + arguments)
  statements (enterFrame (frameCells + arguments))
  statements [atSymbol name, jump]
  statements [.label back]

/-- Emits the code of a return. -/
def ret : Emitter Unit :=
  statements returnCode

/-- The function that a program starts with. -/
def firstFunction : String := "Sys.init"

/-- Emits the code that sets up the stack and calls the first function. -/
def start (comments : Bool) : Emitter Unit := do
  if comments then emit [.comment "bootstrap"]
  statements ([atNumber MemoryMap.stackBase, setD (.get .a)] ++ storeData .sp)
  call firstFunction 0

/-! ### Commands -/

/-- Gives the first argument of a command. -/
def argumentOf (c : Command) : Emitter String :=
  ofExcept EmitError.command c.argument

/-- Gives the second argument of a command. -/
def countOf (c : Command) : Emitter Int :=
  ofExcept EmitError.command c.count

/-- Emits the code of a command, without a comment. -/
def plainCommand (c : Command) : Emitter Unit :=
  match c.kind with
  | .arithmetic => do arithmetic (← argumentOf c)
  | .push | .pop => do
    let name ← argumentOf c
    access c.kind name (← countOf c)
  | .label => do label (← argumentOf c)
  | .goto => do goto (← argumentOf c)
  | .ifGoto => do ifGoto (← argumentOf c)
  | .function => do
    let name ← argumentOf c
    function name (← countOf c)
  | .call => do
    let name ← argumentOf c
    call name (← countOf c)
  | .ret => ret

/-- Emits the comment that shows a command. -/
def commandComment (comments : Bool) (text : String) : Emitter Unit :=
  if comments then emit [.comment text] else done ()

/-- Emits the code of a command, behind a comment that shows it if comments are wanted. -/
def command (comments : Bool) (c : Command) : Emitter Unit := do
  commandComment comments c.text
  plainCommand c

/-- Emits the code of a text as a command of the given kind; without a kind there is none. -/
def textAs (comments : Bool) (text : String) : Option Kind → Emitter Unit
  | some kind => command comments ⟨text, kind, 0⟩
  | none => do
    commandComment comments text
    fail .noKind

end Emitter

end HackToolchain.VM
