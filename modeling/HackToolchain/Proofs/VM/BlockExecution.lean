import HackToolchain.Proofs.VM.Placement

/-!
# Executing the code of an instruction

The code of an instruction, once it is loaded, does to the memory what the instruction does when it
keeps values in the scratch cells.

* `executeAll_pushData` and its companions: what the pieces of code do to a view;
* `executes`: the code of an instruction takes the machine from the first of its words to
  where the instruction goes on.  A machine that still runs stops there only if it closes an idle
  loop, which nothing but a jump to itself does.
-/

namespace HackToolchain.VM

open Asm Machine Code

/-! ### Pieces of code -/

section Pieces

variable (σ : Layout) (v : View)

@[simp] theorem execute_cell (c : Cell) :
    v.execute σ (.address (.symbol c.symbol)) = { v with a := c.slot } := by
  rw [View.execute, Layout.resolve, σ.address_symbol, BitVec.ofInt_natCast]
  rfl

@[simp] theorem execute_literal (n : Int) :
    v.execute σ (.address (.literal n)) = { v with a := BitVec.ofInt 16 n } := rfl

@[simp] theorem execute_label (name : String) : v.execute σ (.label name) = v := rfl

@[simp] theorem execute_setA (comp : Comp) {h : [Register.a].Nodup} :
    v.execute σ (.compute { dest := ⟨[.a], h⟩, comp }) =
      { v with a := comp.value v.d (v.operand comp.operand) } := rfl

@[simp] theorem execute_setD (comp : Comp) {h : [Register.d].Nodup} :
    v.execute σ (.compute { dest := ⟨[.d], h⟩, comp }) =
      { v with d := comp.value v.d (v.operand comp.operand) } := rfl

@[simp] theorem execute_setM (comp : Comp) {h : [Register.m].Nodup} :
    v.execute σ (.compute { dest := ⟨[.m], h⟩, comp }) =
      { v with memory := v.memory.set v.a (comp.value v.d (v.operand comp.operand)) } := rfl

@[simp] theorem execute_setAM (comp : Comp) {h : [Register.a, .m].Nodup} :
    v.execute σ (.compute { dest := ⟨[.a, .m], h⟩, comp }) =
      { v with
        a := comp.value v.d (v.operand comp.operand)
        memory := v.memory.set v.a (comp.value v.d (v.operand comp.operand)) } := rfl

@[simp] theorem operand_a : v.operand .a = v.a := rfl

@[simp] theorem operand_m : v.operand .m = v.memory v.a := rfl

/-- The view after a value has been pushed from `D`. -/
theorem executeAll_pushData :
    v.executeAll σ pushData = ⟨Cell.sp.slot, v.d, v.memory.push v.d⟩ := by
  simp [pushData, Comp.value, Comp.operand, Memory.push, Memory.cell, Memory.setCell]

theorem executeAll_popData :
    v.executeAll σ popData =
      ⟨v.memory.drop.cell .sp, v.memory.drop.dropped, v.memory.drop⟩ := by
  simp [popData, Comp.value, Comp.operand, Memory.drop, Memory.cell, Memory.setCell,
    Memory.dropped, Memory.set]

theorem executeAll_storeData (c : Cell) :
    v.executeAll σ (storeData c) = ⟨c.slot, v.d, v.memory.setCell c v.d⟩ := by
  simp [storeData, Comp.value, Memory.setCell]

theorem executeAll_loadData (c : Cell) :
    v.executeAll σ (loadData c) = ⟨c.slot, v.memory.cell c, v.memory⟩ := by
  simp [loadData, Comp.value, Comp.operand, Memory.cell]

theorem executeAll_pushCell (c : Cell) :
    v.executeAll σ (pushCell c) =
      ⟨Cell.sp.slot, v.memory.cell c, v.memory.push (v.memory.cell c)⟩ := by
  rw [pushCell, View.executeAll_append, executeAll_pushData]
  simp [Comp.value, Comp.operand, Memory.cell]

theorem executeAll_pushZero :
    v.executeAll σ pushZero = ⟨Cell.sp.slot, v.d, v.memory.push 0⟩ := by
  simp [pushZero, Comp.value, Comp.operand, Memory.push, Memory.cell, Memory.setCell]

theorem executeAll_pushZeros (n : Nat) :
    (v.executeAll σ (List.replicate n pushZero).flatten).memory = pushZeros v.memory n := by
  induction n generalizing v with
  | zero => rfl
  | succ n ih =>
    rw [List.replicate_succ, List.flatten_cons, View.executeAll_append, executeAll_pushZero, ih]
    rfl

theorem memory_popToTarget :
    (v.executeAll σ popToTarget).memory =
      v.memory.drop.set (v.memory.drop.cell .r13) v.memory.drop.dropped := by
  rw [popToTarget, View.executeAll_append, executeAll_popData]
  simp [Comp.value, Comp.operand, Memory.cell]

theorem executeAll_restore (offset : Int) (c : Cell) :
    v.executeAll σ (restore offset c) =
      ⟨c.slot, v.memory (v.memory.cell .r13 - BitVec.ofInt 16 offset),
        v.memory.setCell c (v.memory (v.memory.cell .r13 - BitVec.ofInt 16 offset))⟩ := by
  rw [restore, View.executeAll_append, View.executeAll_append, executeAll_loadData,
    executeAll_storeData]
  simp [Comp.value, Comp.operand]

theorem memory_enterFrame (distance : Int) :
    (v.executeAll σ (enterFrame distance)).memory =
      let m := v.memory.setCell .arg (v.memory.cell .sp - BitVec.ofInt 16 distance)
      m.setCell .lcl (m.cell .sp) := by
  simp [enterFrame, executeAll_loadData, executeAll_storeData, Comp.value, Comp.operand]

end Pieces

/-! ### Code without jumps -/

section Straight

variable (σ : Layout) (v : View) (s : Scope) (next : Nat)

theorem execute_symbol (name : String) :
    v.execute σ (.address (.symbol name)) =
      { v with a := BitVec.ofNat 16 (σ.address name) } := by
  rw [View.execute, Layout.resolve, BitVec.ofInt_natCast]

/-- The code of an operation that is no comparison replaces the values on top by the result. -/
theorem memory_operation {op : Operation} (hop : op.isComparison = false) :
    (v.executeAll σ (op.code s)).memory = op.apply v.memory := by
  cases op with
  | eq | gt | lt => contradiction
  | neg | not =>
    simp [Operation.code, Operation.apply, Operation.isUnary, Operation.result, Comp.value,
      Comp.operand, Memory.cell]
  | add | sub | and | or =>
    simp [Operation.code, executeAll_popData, Operation.apply, Operation.isUnary,
      Operation.result, Comp.value, Comp.operand, BitVec.add_comm, BitVec.and_comm,
      BitVec.or_comm]

/-- The source code of a segment brings the value to push into `D`. -/
theorem executeAll_sourceCode (segment : Segment) (index : Int) :
    (v.executeAll σ (segment.sourceCode s index)).d =
        segment.value σ.address s index v.memory ∧
      (v.executeAll σ (segment.sourceCode s index)).memory = v.memory := by
  cases segment with
  | static =>
    simp [Segment.sourceCode, Segment.base?, Segment.address, execute_symbol, Segment.value,
      Segment.location, Comp.value, Comp.operand]
  | _ =>
    simp [Segment.sourceCode, Segment.base?, Segment.address, Segment.value, Segment.location,
      pushIndexed, Comp.value, Comp.operand, Memory.cell, BitVec.add_comm]

/-- The target code of a segment brings the address to pop into into `R13`. -/
theorem memory_targetCode {segment : Segment} (hsegment : segment ≠ .constant) (index : Int) :
    (v.executeAll σ (segment.targetCode s index)).memory =
      v.memory.setCell .r13 (segment.location σ.address s index v.memory) := by
  cases segment with
  | constant => contradiction
  | static =>
    simp [Segment.targetCode, Segment.base?, Segment.address, execute_symbol, Segment.location,
      executeAll_storeData, Comp.value, Comp.operand]
  | _ =>
    simp [Segment.targetCode, Segment.base?, Segment.address, Segment.location, targetIndexed,
      executeAll_storeData, Comp.value, Comp.operand, Memory.cell, BitVec.add_comm]

/-- The memory after the code of a frame. -/
theorem memory_frame (back : String) (arguments : Int) :
    (v.executeAll σ ([atSymbol back, setD (.get .a)] ++ pushData ++ savedCells.flatMap pushCell ++
      enterFrame (frameCells + arguments))).memory =
        pushFrame (BitVec.ofNat 16 (σ.address back)) arguments v.memory := by
  have hsaved : savedCells.flatMap pushCell =
      pushCell .lcl ++ (pushCell .arg ++ (pushCell .this ++ (pushCell .that ++ []))) := rfl
  rw [hsaved, View.executeAll_append, memory_enterFrame]
  simp only [View.executeAll_append, executeAll_pushCell, View.executeAll_nil, executeAll_pushData]
  simp [execute_symbol, Comp.value, Comp.operand, pushFrame, pushSaved, enter]

/-- The code of a return up to its jump. -/
def returnBody : List Statement :=
  loadData .lcl ++ storeData .r13 ++
    [atNumber frameCells, setA (.sub .a), setD (.get .m)] ++ storeData .r14 ++
    popData ++ [atCell .arg, setA (.get .m), setM .d] ++
    [atCell .arg, setD (.inc .m)] ++ storeData .sp ++
    restore 1 .that ++ restore 2 .this ++ restore 3 .arg ++ restore 4 .lcl ++
    [atCell .r14, setA (.get .m)]

theorem returnCode_eq : returnCode = returnBody ++ [jump] := rfl

/-- The memory after the code of a return, and the address in `A` for its jump. -/
theorem executeAll_returnBody :
    (v.executeAll σ returnBody).memory = (popFrame .inMemory v.memory).2 ∧
      (v.executeAll σ returnBody).a = (popFrame .inMemory v.memory).1 := by
  simp only [returnBody, View.executeAll_append, executeAll_restore, executeAll_storeData,
    executeAll_loadData, executeAll_popData]
  simp [Comp.value, Comp.operand, popFrame, restoreCells, putResult, Scratch.keep, Scratch.kept,
    Memory.cell, frameCells]

end Straight

/-! ### Blocks -/

section Blocks

variable {c : Computer} {σ : Layout} {s : Scope} {pc : Nat} {st : State} {i : Instruction}

/-- The machine has come to an address and holds a memory.  It goes on from there unless it has just
executed the instruction `i` at `pc`, and that is a jump to itself. -/
structure Finishes (c : Computer) (i : Instruction) (pc target : Nat) (m : Memory) (st : State) :
    Prop where
  /-- The machine is at the address. -/
  arrives : c.Arrives target st
  /-- It holds the memory. -/
  memory : st.data.ram.memory = m
  /-- It goes on. -/
  running : c.At target st ∨ target = pc ∧ ∃ name, i = .goto name

theorem isStraight_pushZeros (n : Nat) :
    ∀ x ∈ (List.replicate n pushZero).flatten, IsStraight x := by
  intro x hx
  obtain ⟨code, hcode, hx⟩ := List.mem_flatten.1 hx
  rw [(List.mem_replicate.1 hcode).2] at hx
  have hall : ∀ x ∈ pushZero, IsStraight x := by decide
  exact hall x hx

/-- The instructions whose code has no jump. -/
def Instruction.isStraight : Instruction → Bool
  | .operation op => !op.isComparison
  | .push .. | .pop .. | .label _ | .function .. => true
  | _ => false

theorem isStraight_code (hi : i.isStraight = true) : ∀ x ∈ i.code s, IsStraight x := by
  cases i with
  | operation op =>
    cases op with
    | eq | gt | lt => contradiction
    | _ =>
      simp only [Instruction.code, Operation.code]
      decide
  | push segment index =>
    cases segment <;> simp [Instruction.code, Segment.sourceCode, Segment.base?, pushIndexed,
      pushData, IsStraight]
  | pop segment index =>
    cases segment <;> simp [Instruction.code, Segment.targetCode, Segment.base?, targetIndexed,
      popToTarget, popData, storeData, IsStraight]
  | label name => simp [Instruction.code, IsStraight]
  | function name locals =>
    intro x hx
    rcases List.mem_cons.1 hx with rfl | hx
    · trivial
    · exact isStraight_pushZeros _ x hx
  | _ => contradiction

theorem isReady_code (hi : i.isStraight = true) : IsReady (i.code s) := by
  cases i with
  | operation op => cases op <;> trivial
  | push segment index => cases segment <;> trivial
  | pop segment index => cases segment <;> trivial
  | label name => trivial
  | function name locals =>
    rw [Instruction.code, IsReady]
    cases locals.toNat <;> trivial
  | _ => contradiction

theorem memory_code (v : View) (hi : i.isStraight = true) (hlegal : i.IsLegal) (next : Nat) :
    i.step .inMemory σ.address s next v.memory =
      (next, (v.executeAll σ (i.code s)).memory) := by
  cases i with
  | operation op =>
    rw [Instruction.code, memory_operation]
    · rfl
    · simpa [Instruction.isStraight] using hi
  | push segment index =>
    obtain ⟨hd, hm⟩ := executeAll_sourceCode σ v s segment index
    rw [Instruction.code, View.executeAll_append, executeAll_pushData, hd, hm]
    rfl
  | pop segment index =>
    have hsegment : segment ≠ .constant := by
      rintro rfl
      exact hlegal index rfl
    rw [Instruction.code, View.executeAll_append, memory_popToTarget,
      memory_targetCode σ v s hsegment]
    rfl
  | label name => rfl
  | function name locals =>
    rw [Instruction.code, View.executeAll_cons, executeAll_pushZeros]
    rfl
  | _ => contradiction

/-- The view after the code of a comparison up to its first jump. -/
theorem executeAll_difference (v : View) (yes : String) :
    v.executeAll σ (popData ++ [setA (.dec .a), setD (.subD .m), atSymbol yes]) =
      let m := v.memory.drop
      ⟨BitVec.ofNat 16 (σ.address yes), m (m.cell .sp - 1) - m.dropped, m⟩ := by
  rw [View.executeAll_append, executeAll_popData]
  simp [execute_symbol, Comp.value, Comp.operand]

theorem executeAll_putFalse (v : View) (finish : String) :
    v.executeAll σ [atCell .sp, setA (.dec .m), setM .zero, atSymbol finish] =
      ⟨BitVec.ofNat 16 (σ.address finish), v.d, v.memory.set (v.memory.cell .sp - 1) 0⟩ := by
  simp [Comp.value, Comp.operand, Memory.cell]
  rw [execute_symbol]

theorem memory_putTrue (v : View) (yes finish : String) :
    (v.executeAll σ
      [.label yes, atCell .sp, setA (.dec .m), setM .minusOne, .label finish]).memory =
        v.memory.set (v.memory.cell .sp - 1) 0xFFFF := by
  simp [Comp.value, Comp.operand, Memory.cell]

/-- A comparison puts the value of its condition in the place of the value below the top. -/
theorem executes_compareCode {condition : Jump} {yes finish : String}
    (hl : Loaded c σ pc (compareCode condition yes finish)) (hat : c.At pc st) :
    let m := st.data.ram.memory.drop
    let place := m.cell .sp - 1
    ∃ st', c.Reaches st st' ∧ c.At (pc + wordCount (compareCode condition yes finish)) st' ∧
      st'.data.ram.memory =
        m.set place (Operation.truth (condition.holds (m place - m.dropped))) := by
  intro m place
  have hyes := toNat_address (Loaded.address_lt hl yes (by simp [compareCode]))
  have hfinish := toNat_address (Loaded.address_lt hl finish (by simp [compareCode]))
  -- the difference with its jump, the branch behind it, and the branch that it leads to
  have hcode : compareCode condition yes finish =
      (popData ++ [setA (.dec .a), setD (.subD .m), atSymbol yes] ++ [jumpIf condition]) ++
        (([atCell .sp, setA (.dec .m), setM .zero, atSymbol finish] ++ [jump]) ++
          [.label yes, atCell .sp, setA (.dec .m), setM .minusOne, .label finish]) := rfl
  have hcount : wordCount (compareCode condition yes finish) = 15 := rfl
  rw [hcount]
  rw [hcode] at hl
  obtain ⟨hfront, hback⟩ := Loaded.append_iff.1 hl
  obtain ⟨hno, hyesCode⟩ := Loaded.append_iff.1 hback
  have hyesPlace : σ.address yes = pc + 12 := hyesCode.1
  have hfinishPlace : σ.address finish = pc + 15 := hyesCode.2.2.2.2.1
  obtain ⟨t, hreach, hmemory, hfalse, htrue⟩ :=
    Loaded.reaches_jump hfront rfl (by simp [popData, IsStraight]) rfl hat
  rw [executeAll_difference] at hmemory hfalse htrue
  cases hholds : condition.holds (m place - m.dropped) with
  | false =>
    -- zero is put in place, and the other branch is jumped over
    have hat' : c.At (pc + 7) t := hfalse hholds
    obtain ⟨st', hreach', hmemory', -, hjump⟩ :=
      Loaded.reaches_jump hno rfl (by simp [IsStraight]) rfl hat'
    rw [executeAll_putFalse] at hmemory' hjump
    rw [View.ofStorage, hmemory] at hmemory'
    refine ⟨st', hreach.trans hreach', ?_, hmemory'⟩
    rw [← hfinishPlace, ← hfinish]
    refine (hjump rfl).2 fun _ hidle => ?_
    -- the target lies ahead, so that no idle loop is closed
    have hplace : σ.address finish + 1 = pc + 7 + 4 := hfinish ▸ hidle.1
    omega
  | true =>
    have hat' : c.At (pc + 12) t := by
      rw [← hyesPlace, ← hyes]
      refine (htrue hholds).2 fun _ hidle => ?_
      have hplace : σ.address yes + 1 = pc + 6 := hyes ▸ hidle.1
      omega
    -- all ones are put in place
    obtain ⟨st', hreach', hat'', hmemory'⟩ :=
      Loaded.reaches_of_isReady hyesCode (by simp [IsStraight]) trivial hat'
    rw [memory_putTrue, View.ofStorage, hmemory] at hmemory'
    exact ⟨st', hreach.trans hreach', hat'', hmemory'⟩

/-- What the condition of a comparison is. -/
def Operation.condition : Operation → Jump
  | .eq => .eq
  | .gt => .gt
  | .lt => .lt
  | _ => .never

theorem Operation.apply_comparison {op : Operation} (hop : op.isComparison = true) (m : Memory) :
    op.apply m =
      let m := m.drop
      let place := m.cell .sp - 1
      m.set place (truth (op.condition.holds (m place - m.dropped))) := by
  cases op with
  | eq =>
    have hzero (x : Value) : (x.toInt == 0) = (x == 0) := by
      rw [Bool.eq_iff_iff, beq_iff_eq, beq_iff_eq]
      exact ⟨fun h => BitVec.eq_of_toInt_eq h, fun h => by rw [h]; rfl⟩
    simp only [apply, isUnary, result, condition, Jump.holds, hzero]
    rfl
  | gt | lt => simp [apply, isUnary, result, condition, Jump.holds]
  | _ => contradiction

/-- The code of a comparison does to the memory what the comparison does. -/
theorem executes_comparison {op : Operation} (hop : op.isComparison = true)
    (hl : Loaded c σ pc (op.code s)) (hat : c.At pc st) :
    ∃ st', c.Reaches st st' ∧ c.At (pc + wordCount (op.code s)) st' ∧
      st'.data.ram.memory = op.apply st.data.ram.memory := by
  have hcode : op.code s =
      compareCode op.condition (s.numbered "TRUE_") (s.numbered "END_") := by
    cases op <;> first | rfl | contradiction
  rw [hcode] at hl ⊢
  rw [Operation.apply_comparison hop]
  exact executes_compareCode hl hat

/-- A jump goes to the address of its label. -/
theorem executes_goto {name : String} (hl : Loaded c σ pc [atSymbol name, jump])
    (hat : c.At pc st) :
    ∃ st', c.Reaches st st' ∧ st'.data.ram.memory = st.data.ram.memory ∧
      c.Arrives (σ.address name) st' ∧ (σ.address name ≠ pc → c.At (σ.address name) st') := by
  have hname := toNat_address (Loaded.address_lt hl name (by simp))
  have hl' : Loaded c σ pc ([atSymbol name] ++ [jump]) := hl
  obtain ⟨st', hreach, hmemory, -, hjump⟩ :=
    Loaded.reaches_jump hl' rfl (by simp [IsStraight]) rfl hat
  obtain ⟨harrives, hat'⟩ := hjump rfl
  simp only [atSymbol, View.executeAll_cons, View.executeAll_nil, execute_symbol, hname] at *
  refine ⟨st', hreach, hmemory, harrives, fun hne => hat' fun _ hidle => hne ?_⟩
  have hplace : σ.address name + 1 = pc + 1 := hidle.1
  omega

/-- A jump on the value popped goes to the address of its label, or on to the next instruction. -/
theorem executes_ifGoto {name : String}
    (hl : Loaded c σ pc (popData ++ [atSymbol name, jumpIf .ne])) (hat : c.At pc st) :
    let m := st.data.ram.memory.drop
    ∃ st', c.Reaches st st' ∧ st'.data.ram.memory = m ∧
      c.At (if m.dropped = 0 then pc + 5 else σ.address name) st' := by
  intro m
  have hname := toNat_address (Loaded.address_lt hl name (by simp))
  have hl' : Loaded c σ pc ((popData ++ [atSymbol name]) ++ [jumpIf .ne]) := hl
  obtain ⟨st', hreach, hmemory, hnext, hjump⟩ :=
    Loaded.reaches_jump hl' rfl
      (by simp [popData, IsStraight]) rfl hat
  rw [View.executeAll_append, executeAll_popData] at hmemory hnext hjump
  simp only [atSymbol, View.executeAll_cons, View.executeAll_nil, execute_symbol, hname] at *
  refine ⟨st', hreach, hmemory, ?_⟩
  by_cases hzero : m.dropped = 0
  · rw [if_pos hzero]
    refine hnext ?_
    change (m.dropped.toInt != 0) = false
    rw [hzero]
    rfl
  · rw [if_neg hzero]
    refine (hjump ?_).2 fun h => Jump.noConfusion h
    change (m.dropped.toInt != 0) = true
    rw [bne_iff_ne]
    exact fun h => hzero (BitVec.eq_of_toInt_eq h)

/-- The code of a call up to its jump. -/
def callBody (back name : String) (arguments : Int) : List Statement :=
  [atSymbol back, setD (.get .a)] ++ pushData ++ savedCells.flatMap pushCell ++
    enterFrame (frameCells + arguments) ++ [atSymbol name]

theorem callCode_eq (back name : String) (arguments : Int) :
    callCode back name arguments = callBody back name arguments ++ [jump] ++ [.label back] := by
  simp [callCode, callBody]

/-- The memory after the code of a call, and the address in `A` for its jump. -/
theorem executeAll_callBody (v : View) (back name : String) (arguments : Int) :
    (v.executeAll σ (callBody back name arguments)).memory =
        pushFrame (BitVec.ofNat 16 (σ.address back)) arguments v.memory ∧
      (v.executeAll σ (callBody back name arguments)).a = BitVec.ofNat 16 (σ.address name) := by
  rw [callBody, View.executeAll_append, ← memory_frame]
  generalize v.executeAll σ _ = w
  rw [View.executeAll_cons, View.executeAll_nil, atSymbol, execute_symbol]
  exact ⟨rfl, rfl⟩

/-- A call pushes a frame and goes to the function. -/
theorem executes_callCode {back name : String} {arguments : Int}
    (hl : Loaded c σ pc (callCode back name arguments))
    (hself : σ.address name + 2 ≠ pc + wordCount (callCode back name arguments))
    (hat : c.At pc st) :
    let next := pc + wordCount (callCode back name arguments)
    ∃ st', c.Reaches st st' ∧ c.At (σ.address name) st' ∧
      st'.data.ram.memory =
        pushFrame (BitVec.ofNat 16 next) arguments st.data.ram.memory := by
  intro next
  have hname := toNat_address
    (Loaded.address_lt hl name (by simp [callCode]))
  have hcount : wordCount (callCode back name arguments) =
      wordCount (callBody back name arguments) + 1 := by
    rw [callCode_eq]
    simp
  rw [callCode_eq] at hl
  obtain ⟨hfront, hback⟩ := Loaded.append_iff.1 hl
  -- the return address is that of the label behind the code
  have hnext : σ.address back = next := by
    rw [hback.1, wordCount_append]
    simp [next, hcount]
  obtain ⟨st', hreach, hmemory, -, hjump⟩ :=
    Loaded.reaches_jump hfront rfl
      (by simp [callBody, pushData, savedCells, pushCell, enterFrame, loadData, storeData,
        IsStraight]) rfl hat
  obtain ⟨hm, ha⟩ := executeAll_callBody (View.ofStorage st.data) back name arguments
  rw [hm, hnext] at hmemory
  simp only [ha, hname] at hjump
  refine ⟨st', hreach, (hjump rfl).2 fun _ hidle => hself ?_, hmemory⟩
  -- only a function two words back would close an idle loop
  have hplace := hidle.1
  rw [hcount]
  change σ.address name + 1 = pc + wordCount (callBody back name arguments) at hplace
  omega

/-- A return pops the frame and goes to the return address. -/
theorem executes_returnCode (hl : Loaded c σ pc returnCode) (hsize : c.rom.size < 0x8000)
    (hat : c.At pc st) :
    let out := popFrame .inMemory st.data.ram.memory
    ∃ st', c.Reaches st st' ∧ c.At out.1.toNat st' ∧ st'.data.ram.memory = out.2 := by
  intro out
  rw [returnCode_eq] at hl
  obtain ⟨st', hreach, hmemory, -, hjump⟩ :=
    Loaded.reaches_jump hl rfl
      (by simp [returnBody, popData, loadData, storeData, restore, IsStraight]) rfl hat
  obtain ⟨hm, ha⟩ := executeAll_returnBody σ (View.ofStorage st.data)
  rw [hm] at hmemory
  rw [ha] at hjump
  refine ⟨st', hreach, (hjump rfl).2 fun _ hidle => ?_, hmemory⟩
  -- the word before the jump is not its own address, which is smaller
  have hplace : out.1.toNat + 1 = pc + wordCount returnBody := hidle.1
  have hword : c.rom[out.1.toNat]? = some (out.1.toNat : Int) := hidle.2
  have hbody : returnBody = returnBody.dropLast ++ [setA (.get .m)] := rfl
  have hcount : wordCount returnBody = wordCount returnBody.dropLast + 1 := rfl
  rw [hbody] at hl
  have hlast := ((Loaded.append_iff.1 (Loaded.append_iff.1 hl).1).2).1
  rw [show pc + wordCount returnBody.dropLast = out.1.toNat by omega, hword] at hlast
  obtain ⟨hlt, -⟩ := Array.getElem?_eq_some_iff.1 hword
  have hsame : (out.1.toNat : Int) = 0xFC20 := Option.some.inj hlast
  omega

/-- The code of an instruction takes the machine to where the instruction goes on. -/
theorem executes (hl : Loaded c σ pc (i.code s)) (hlegal : i.IsLegal)
    (hsize : c.rom.size < 0x8000)
    (hself : ∀ name ∈ i.callee?, σ.address name + 2 ≠ pc + wordCount (i.code s))
    (hat : c.At pc st) :
    let out := i.step .inMemory σ.address s (pc + wordCount (i.code s)) st.data.ram.memory
    ∃ st', c.Reaches st st' ∧ Finishes c i pc out.1 out.2 st' := by
  intro out
  -- most instructions lead to one place, where the machine can go on
  have hgoes (target : Nat) {m : Memory} (hout : out = (target, m))
      (h : ∃ st', c.Reaches st st' ∧ c.At target st' ∧ st'.data.ram.memory = m) :
      ∃ st', c.Reaches st st' ∧ Finishes c i pc out.1 out.2 st' := by
    obtain ⟨st', hreach, hat', hmemory⟩ := h
    rw [hout]
    exact ⟨st', hreach, hat'.toArrives, hmemory, .inl hat'⟩
  by_cases hstraight : i.isStraight = true
  · exact hgoes _ (memory_code (View.ofStorage st.data) hstraight hlegal _)
      (Loaded.reaches_of_isReady hl (isStraight_code hstraight) (isReady_code hstraight) hat)
  · cases i with
    | start =>
      obtain ⟨hfront, hcall⟩ := Loaded.append_iff.1 hl
      obtain ⟨t, hreach, hat', hmemory⟩ :=
        Loaded.reaches_of_isReady hfront (by simp [storeData, IsStraight]) trivial hat
      have hself' := hself Emitter.firstFunction rfl
      rw [Instruction.code, wordCount_append, ← Nat.add_assoc] at hself'
      obtain ⟨st', hreach', hat'', hmemory'⟩ := executes_callCode hcall hself' hat'
      refine hgoes _ rfl ⟨st', hreach.trans hreach', hat'', ?_⟩
      rw [hmemory', hmemory, View.executeAll_append, executeAll_storeData, Instruction.code,
        wordCount_append, ← Nat.add_assoc]
      rfl
    | operation op =>
      have hop : op.isComparison = true := by
        simpa [Instruction.isStraight] using hstraight
      exact hgoes _ rfl (executes_comparison hop hl hat)
    | goto name =>
      obtain ⟨st', hreach, hmemory, harrives, hne⟩ := executes_goto hl hat
      refine ⟨st', hreach, harrives, hmemory, ?_⟩
      -- only a jump to itself may halt the machine
      by_cases hself : σ.address (s.qualify name) = pc
      · exact .inr ⟨hself, name, rfl⟩
      · exact .inl (hne hself)
    | ifGoto name =>
      obtain ⟨st', hreach, hmemory, hat'⟩ := executes_ifGoto hl hat
      exact hgoes _ rfl ⟨st', hreach, hat', hmemory⟩
    | call name arguments =>
      exact hgoes _ rfl (executes_callCode hl (hself name rfl) hat)
    | ret => exact hgoes _ rfl (executes_returnCode hl hsize hat)
    | _ => contradiction

end Blocks

end HackToolchain.VM
