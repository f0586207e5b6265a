import HackToolchain.Proofs.Text.Numeral
import HackToolchain.VM.Code

/-!
# Instructions of the stack machine

An `Instruction` is a command whose arguments have been read.  `Instruction.code` is its code in a
scope, as a list of statements, and `Instruction.after` the scope behind it.

* `Emitter.plainCommand_eq_ok`: whenever code is emitted for a command, the command reads as an
  instruction, and the lines emitted are its code.
-/

namespace HackToolchain.VM

open Asm Code

attribute [simp] atCell atNumber atSymbol setA setD setM setAM jump jumpIf

/-- A command whose arguments have been read. -/
inductive Instruction where
  /-- Sets up the stack and calls the first function. -/
  | start
  /-- An arithmetic command. -/
  | operation (op : Operation)
  /-- Pushes a constant or a cell of a segment. -/
  | push (segment : Segment) (index : Int)
  /-- Pops into a cell of a segment. -/
  | pop (segment : Segment) (index : Int)
  /-- Names a place. -/
  | label (name : String)
  /-- Goes to a place. -/
  | goto (name : String)
  /-- Goes to a place if the value popped is not zero. -/
  | ifGoto (name : String)
  /-- Begins a function. -/
  | function (name : String) (locals : Int)
  /-- Calls a function. -/
  | call (name : String) (arguments : Int)
  /-- Returns to the caller. -/
  | ret
  deriving DecidableEq, Repr

/-! ### Names -/

namespace Scope

/-- The symbol of a label. -/
def qualify (s : Scope) (label : String) : String :=
  if s.functionName.isEmpty then label else s.functionName ++ "$" ++ label

/-- The symbol of a static variable. -/
def staticSymbol (s : Scope) (index : Int) : String :=
  s.unitName ++ "." ++ toString index

/-- A generated symbol: a stem and the number of the next generated label. -/
def numbered (s : Scope) (stem : String) : String :=
  stem ++ toString s.labelsUsed

/-- The scope behind a generated label. -/
def afterLabel (s : Scope) : Scope :=
  { s with labelsUsed := s.labelsUsed + 1 }

end Scope

/-! ### Code -/

/-- The address of a cell that is known, of a segment without a base. -/
def Segment.address (s : Scope) (index : Int) : Segment → Address
  | .temp => .literal (MemoryMap.tempBase + index)
  | .pointer => .symbol (if index = 0 then Cell.this else Cell.that).symbol
  | _ => .symbol (s.staticSymbol index)

/-- The code that brings the value to push into `D`. -/
def Segment.sourceCode (s : Scope) (segment : Segment) (index : Int) : List Statement :=
  match segment, segment.base? with
  | .constant, _ => [atNumber index, setD (.get .a)]
  | _, some base => pushIndexed base index
  | _, none => [.address (segment.address s index), setD (.get .m)]

/-- The code that brings the address to pop into into `R13`. -/
def Segment.targetCode (s : Scope) (segment : Segment) (index : Int) : List Statement :=
  match segment.base? with
  | some base => targetIndexed base index
  | none => [.address (segment.address s index), setD (.get .a)] ++ storeData .r13

/-- The code of an arithmetic command. -/
def Operation.code (s : Scope) : Operation → List Statement
  | .add => popData ++ [setA (.dec .a), setM (.add .m .dFirst)]
  | .sub => popData ++ [setA (.dec .a), setM (.subD .m)]
  | .and => popData ++ [setA (.dec .a), setM (.and .m .dFirst)]
  | .or => popData ++ [setA (.dec .a), setM (.or .m .dFirst)]
  | .neg => [atCell .sp, setA (.dec .m), setM (.neg .m)]
  | .not => [atCell .sp, setA (.dec .m), setM (.not .m)]
  | .eq => compareCode .eq (s.numbered "TRUE_") (s.numbered "END_")
  | .gt => compareCode .gt (s.numbered "TRUE_") (s.numbered "END_")
  | .lt => compareCode .lt (s.numbered "TRUE_") (s.numbered "END_")

/-- An arithmetic command compares two values. -/
def Operation.isComparison : Operation → Bool
  | .eq | .gt | .lt => true
  | _ => false

/-- The code of a call, which returns to the label `back`. -/
def callCode (back name : String) (arguments : Int) : List Statement :=
  [atSymbol back, setD (.get .a)] ++ pushData ++ savedCells.flatMap pushCell ++
    enterFrame (frameCells + arguments) ++ [atSymbol name, jump] ++ [.label back]

namespace Instruction

/-- The code of an instruction. -/
def code (s : Scope) : Instruction → List Statement
  | .start =>
    [atNumber MemoryMap.stackBase, setD (.get .a)] ++ storeData .sp ++
      callCode (s.numbered "RET_") Emitter.firstFunction 0
  | .operation op => op.code s
  | .push segment index => segment.sourceCode s index ++ pushData
  | .pop segment index => segment.targetCode s index ++ popToTarget
  | .label name => [.label (s.qualify name)]
  | .goto name => [atSymbol (s.qualify name), jump]
  | .ifGoto name => popData ++ [atSymbol (s.qualify name), jumpIf .ne]
  | .function name locals => .label name :: (List.replicate locals.toNat pushZero).flatten
  | .call name arguments => callCode (s.numbered "RET_") name arguments
  | .ret => returnCode

/-- The instruction takes the number of a generated label. -/
def takesLabel : Instruction → Bool
  | .start | .call .. => true
  | .operation op => op.isComparison
  | _ => false

/-- The scope behind an instruction. -/
def after (s : Scope) (i : Instruction) : Scope :=
  let s := if i.takesLabel then s.afterLabel else s
  match i with
  | .function name _ => { s with functionName := name }
  | _ => s

/-- The instruction does not pop into a constant. -/
def IsLegal (i : Instruction) : Prop :=
  ∀ index, i ≠ .pop .constant index

/-- The instruction that a command reads as, if its arguments can be read. -/
def ofCommand? (c : Command) : Option Instruction :=
  match c.kind with
  | .arithmetic => (Operation.ofName? c.text).map .operation
  | .push => do return .push (← Segment.ofName? (← c.argument.toOption)) (← c.count.toOption)
  | .pop => do return .pop (← Segment.ofName? (← c.argument.toOption)) (← c.count.toOption)
  | .label => c.argument.toOption.map .label
  | .goto => c.argument.toOption.map .goto
  | .ifGoto => c.argument.toOption.map .ifGoto
  | .function => do return .function (← c.argument.toOption) (← c.count.toOption)
  | .call => do return .call (← c.argument.toOption) (← c.count.toOption)
  | .ret => some .ret

end Instruction

/-! ### Emitters that succeed -/

namespace Emitter

variable {α β : Type} {s s' : Scope} {lines : List Line}

@[simp] theorem andThen_eq_ok_iff {x : Emitter α} {f : α → Emitter β} {b : β} :
    andThen x f s = ⟨lines, s', .ok b⟩ ↔
      ∃ first t a rest, x s = ⟨first, t, .ok a⟩ ∧ f a t = ⟨rest, s', .ok b⟩ ∧
        first ++ rest = lines := by
  unfold andThen
  rcases hx : x s with ⟨first, t, error | a⟩
  · simp
  · rcases hf : f a t with ⟨rest, u, r⟩
    simp only [Emission.mk.injEq, hf]
    constructor
    · rintro ⟨hl, hu, hr⟩
      exact ⟨first, t, a, rest, ⟨rfl, rfl, rfl⟩, by rw [hf, hu, hr], hl⟩
    · rintro ⟨_, _, a', rest', ⟨rfl, rfl, ha⟩, hf', hl⟩
      injection ha with ha
      rw [← ha, hf] at hf'
      injection hf' with h1 h2 h3
      exact ⟨by rw [h1]; exact hl, h2, h3⟩

@[simp] theorem done_eq_ok_iff {a b : α} :
    done a s = ⟨lines, s', .ok b⟩ ↔ lines = [] ∧ s' = s ∧ b = a := by
  simp [done, eq_comm]

@[simp] theorem fail_ne_ok {error : EmitError} {a : α} :
    fail error s ≠ ⟨lines, s', .ok a⟩ := by
  simp [fail]

@[simp] theorem statements_eq_ok_iff {code : List Statement} {u : Unit} :
    statements code s = ⟨lines, s', .ok u⟩ ↔ lines = code.map Line.statement ∧ s' = s := by
  simp [statements, emit, eq_comm]

@[simp] theorem scope_eq_ok_iff {t : Scope} :
    scope s = ⟨lines, s', .ok t⟩ ↔ lines = [] ∧ s' = s ∧ t = s := by
  simp [scope, eq_comm]

@[simp] theorem setScope_eq_ok_iff {t : Scope} {u : Unit} :
    setScope t s = ⟨lines, s', .ok u⟩ ↔ lines = [] ∧ s' = t := by
  simp [setScope, eq_comm]

@[simp] theorem ofExcept_eq_ok_iff {ε : Type} {wrap : ε → EmitError} {x : Except ε α} {a : α} :
    ofExcept wrap x s = ⟨lines, s', .ok a⟩ ↔ lines = [] ∧ s' = s ∧ x = .ok a := by
  cases x with
  | ok value =>
    rw [ofExcept, done_eq_ok_iff, Except.ok.injEq, eq_comm (a := a)]
  | error error => simp [ofExcept]

theorem numeral_eq_ok {n : Int} {text : String} (h : numeral n s = ⟨lines, s', .ok text⟩) :
    lines = [] ∧ s' = s ∧ text = toString n := by
  obtain ⟨hl, hs, hn⟩ := ofExcept_eq_ok_iff.1 h
  exact ⟨hl, hs, Text.writeNumeral_eq_ok hn⟩

theorem checkNumeral_eq_ok {n : Int} {u : Unit} (h : checkNumeral n s = ⟨lines, s', .ok u⟩) :
    lines = [] ∧ s' = s := by
  simp only [checkNumeral, bind_eq, pure_eq, andThen_eq_ok_iff, done_eq_ok_iff] at h
  obtain ⟨_, _, _, _, hn, ⟨rfl, rfl, -⟩, rfl⟩ := h
  obtain ⟨rfl, rfl, -⟩ := numeral_eq_ok hn
  exact ⟨rfl, rfl⟩

theorem checkIndex_eq_ok {area : Area} {index : Int} {u : Unit}
    (h : checkIndex area index s = ⟨lines, s', .ok u⟩) :
    lines = [] ∧ s' = s ∧ 0 ≤ index ∧ index ≤ area.last := by
  unfold checkIndex at h
  split at h
  · rename_i hindex
    simp only [pure_eq, done_eq_ok_iff] at h
    exact ⟨h.1, h.2.1, hindex⟩
  · simp only [bind_eq, andThen_eq_ok_iff, fail_ne_ok, false_and, and_false, exists_false] at h

theorem knownAddress_eq_ok {segment : Segment} {index : Int} {x : Address}
    (h : knownAddress segment index s = ⟨lines, s', .ok x⟩) :
    lines = [] ∧ s' = s ∧ x = segment.address s index := by
  cases segment with
  | temp | pointer =>
    simp only [knownAddress, bind_eq, pure_eq, andThen_eq_ok_iff, done_eq_ok_iff] at h
    obtain ⟨_, _, _, _, hcheck, ⟨rfl, rfl, rfl⟩, rfl⟩ := h
    obtain ⟨rfl, rfl, -⟩ := checkIndex_eq_ok hcheck
    exact ⟨rfl, rfl, rfl⟩
  | static =>
    simp only [knownAddress, bind_eq, pure_eq, andThen_eq_ok_iff, done_eq_ok_iff,
      scope_eq_ok_iff] at h
    obtain ⟨_, _, _, _, hn, ⟨_, _, _, _, ⟨rfl, rfl, rfl⟩, ⟨rfl, rfl, rfl⟩, rfl⟩, rfl⟩ := h
    obtain ⟨rfl, rfl, rfl⟩ := numeral_eq_ok hn
    exact ⟨rfl, rfl, rfl⟩
  | _ => exact absurd h fail_ne_ok

theorem push_eq_ok {segment : Segment} {index : Int} {u : Unit}
    (h : push segment index s = ⟨lines, s', .ok u⟩) :
    lines = ((Instruction.push segment index).code s).map .statement ∧ s' = s := by
  cases segment with
  | constant =>
    simp only [push, bind_eq, andThen_eq_ok_iff, statements_eq_ok_iff] at h
    obtain ⟨_, _, _, _, hcheck, ⟨_, _, _, _, ⟨rfl, rfl⟩, ⟨rfl, rfl⟩, rfl⟩, rfl⟩ := h
    obtain ⟨rfl, rfl, -⟩ := checkIndex_eq_ok hcheck
    exact ⟨rfl, rfl⟩
  | «local» | argument | this | that =>
    simp only [push, Segment.base?, bind_eq, andThen_eq_ok_iff, statements_eq_ok_iff] at h
    obtain ⟨_, _, _, _, hcheck, ⟨_, _, _, _, ⟨rfl, rfl⟩, ⟨rfl, rfl⟩, rfl⟩, rfl⟩ := h
    obtain ⟨rfl, rfl⟩ := checkNumeral_eq_ok hcheck
    exact ⟨rfl, rfl⟩
  | temp | pointer | static =>
    simp only [push, Segment.base?, bind_eq, andThen_eq_ok_iff, statements_eq_ok_iff] at h
    obtain ⟨_, _, x, _, hknown, ⟨_, _, _, _, ⟨rfl, rfl⟩, ⟨rfl, rfl⟩, rfl⟩, rfl⟩ := h
    obtain ⟨rfl, rfl, rfl⟩ := knownAddress_eq_ok hknown
    exact ⟨rfl, rfl⟩

theorem pop_eq_ok {segment : Segment} {index : Int} {u : Unit}
    (h : pop segment index s = ⟨lines, s', .ok u⟩) :
    segment ≠ .constant ∧
      lines = ((Instruction.pop segment index).code s).map .statement ∧ s' = s := by
  cases segment with
  | constant =>
    simp only [pop, bind_eq, andThen_eq_ok_iff, fail_ne_ok, false_and, exists_false] at h
  | «local» | argument | this | that =>
    simp only [pop, Segment.base?, bind_eq, andThen_eq_ok_iff, statements_eq_ok_iff] at h
    obtain ⟨_, _, _, _, hcheck, ⟨_, _, _, _, ⟨rfl, rfl⟩, ⟨rfl, rfl⟩, rfl⟩, rfl⟩ := h
    obtain ⟨rfl, rfl⟩ := checkNumeral_eq_ok hcheck
    exact ⟨by decide, rfl, rfl⟩
  | temp | pointer | static =>
    simp only [pop, Segment.base?, bind_eq, andThen_eq_ok_iff, statements_eq_ok_iff] at h
    obtain ⟨_, _, x, _, hknown, ⟨_, _, _, _, ⟨rfl, rfl⟩, ⟨rfl, rfl⟩, rfl⟩, rfl⟩ := h
    obtain ⟨rfl, rfl, rfl⟩ := knownAddress_eq_ok hknown
    exact ⟨by decide, rfl, rfl⟩

theorem nextLabel_eq_ok {n : Int} (h : nextLabel s = ⟨lines, s', .ok n⟩) :
    lines = [] ∧ s' = s.afterLabel ∧ n = s.labelsUsed := by
  simp only [nextLabel, bind_eq, pure_eq, andThen_eq_ok_iff, scope_eq_ok_iff, setScope_eq_ok_iff,
    done_eq_ok_iff] at h
  obtain ⟨_, _, _, _, ⟨rfl, rfl, rfl⟩, ⟨_, _, _, _, ⟨rfl, rfl⟩, ⟨rfl, rfl, rfl⟩, rfl⟩, rfl⟩ := h
  exact ⟨rfl, rfl, rfl⟩

theorem operation_eq_ok {op : Operation} {u : Unit} (h : operation op s = ⟨lines, s', .ok u⟩) :
    lines = ((Instruction.operation op).code s).map .statement ∧
      s' = (Instruction.operation op).after s := by
  cases op with
  | add | sub | and | or =>
    simp only [operation, binary, bind_eq, andThen_eq_ok_iff, statements_eq_ok_iff] at h
    obtain ⟨_, _, _, _, ⟨rfl, rfl⟩, ⟨rfl, rfl⟩, rfl⟩ := h
    exact ⟨rfl, rfl⟩
  | neg | not =>
    simp only [operation, unary, statements_eq_ok_iff] at h
    exact h
  | eq | gt | lt =>
    simp only [operation, compare, bind_eq, andThen_eq_ok_iff, statements_eq_ok_iff] at h
    obtain ⟨_, _, _, _, hnext, ⟨_, _, _, _, hn, ⟨rfl, rfl⟩, rfl⟩, rfl⟩ := h
    obtain ⟨rfl, rfl, rfl⟩ := nextLabel_eq_ok hnext
    obtain ⟨rfl, rfl, rfl⟩ := numeral_eq_ok hn
    exact ⟨rfl, rfl⟩

theorem call_eq_ok {name : String} {arguments : Int} {u : Unit}
    (h : call name arguments s = ⟨lines, s', .ok u⟩) :
    lines = ((Instruction.call name arguments).code s).map .statement ∧
      s' = (Instruction.call name arguments).after s := by
  simp only [call, bind_eq, andThen_eq_ok_iff, statements_eq_ok_iff] at h
  obtain ⟨_, _, _, _, hnext, ⟨_, _, _, _, hn, ⟨_, _, _, _, ⟨rfl, rfl⟩, ⟨_, _, _, _, ⟨rfl, rfl⟩,
    ⟨_, _, _, _, hcheck, ⟨_, _, _, _, ⟨rfl, rfl⟩, ⟨_, _, _, _, ⟨rfl, rfl⟩, ⟨rfl, rfl⟩, rfl⟩, rfl⟩,
    rfl⟩, rfl⟩, rfl⟩, rfl⟩, rfl⟩ := h
  obtain ⟨rfl, rfl, rfl⟩ := nextLabel_eq_ok hnext
  obtain ⟨rfl, rfl, rfl⟩ := numeral_eq_ok hn
  obtain ⟨rfl, rfl⟩ := checkNumeral_eq_ok hcheck
  refine ⟨?_, rfl⟩
  simp only [Instruction.code, callCode, List.map_append, List.nil_append, List.append_assoc,
    Scope.numbered, toString]

theorem function_eq_ok {name : String} {locals : Int} {u : Unit}
    (h : function name locals s = ⟨lines, s', .ok u⟩) :
    lines = ((Instruction.function name locals).code s).map .statement ∧
      s' = (Instruction.function name locals).after s := by
  simp only [function, bind_eq, andThen_eq_ok_iff, scope_eq_ok_iff, setScope_eq_ok_iff,
    statements_eq_ok_iff] at h
  obtain ⟨_, _, _, _, ⟨rfl, rfl, rfl⟩, ⟨_, _, _, _, ⟨rfl, rfl⟩, ⟨rfl, rfl⟩, rfl⟩, rfl⟩ := h
  exact ⟨rfl, rfl⟩

theorem qualified_eq_ok {name text : String} (h : qualified name s = ⟨lines, s', .ok text⟩) :
    lines = [] ∧ s' = s ∧ text = s.qualify name := by
  simp only [qualified, bind_eq, pure_eq, andThen_eq_ok_iff, scope_eq_ok_iff, done_eq_ok_iff] at h
  obtain ⟨_, _, _, _, ⟨rfl, rfl, rfl⟩, ⟨rfl, rfl, rfl⟩, rfl⟩ := h
  exact ⟨rfl, rfl, rfl⟩

theorem label_eq_ok {name : String} {u : Unit} (h : label name s = ⟨lines, s', .ok u⟩) :
    lines = ((Instruction.label name).code s).map .statement ∧ s' = s := by
  simp only [label, bind_eq, andThen_eq_ok_iff, statements_eq_ok_iff] at h
  obtain ⟨_, _, _, _, hname, ⟨rfl, rfl⟩, rfl⟩ := h
  obtain ⟨rfl, rfl, rfl⟩ := qualified_eq_ok hname
  exact ⟨rfl, rfl⟩

theorem goto_eq_ok {name : String} {u : Unit} (h : goto name s = ⟨lines, s', .ok u⟩) :
    lines = ((Instruction.goto name).code s).map .statement ∧ s' = s := by
  simp only [goto, bind_eq, andThen_eq_ok_iff, statements_eq_ok_iff] at h
  obtain ⟨_, _, _, _, hname, ⟨rfl, rfl⟩, rfl⟩ := h
  obtain ⟨rfl, rfl, rfl⟩ := qualified_eq_ok hname
  exact ⟨rfl, rfl⟩

theorem ifGoto_eq_ok {name : String} {u : Unit} (h : ifGoto name s = ⟨lines, s', .ok u⟩) :
    lines = ((Instruction.ifGoto name).code s).map .statement ∧ s' = s := by
  simp only [ifGoto, bind_eq, andThen_eq_ok_iff, statements_eq_ok_iff] at h
  obtain ⟨_, _, _, _, ⟨rfl, rfl⟩, ⟨_, _, _, _, hname, ⟨rfl, rfl⟩, rfl⟩, rfl⟩ := h
  obtain ⟨rfl, rfl, rfl⟩ := qualified_eq_ok hname
  exact ⟨rfl, rfl⟩

theorem segment_eq_ok {name : String} {seg : Segment}
    (h : segment name s = ⟨lines, s', .ok seg⟩) :
    lines = [] ∧ s' = s ∧ Segment.ofName? name = some seg := by
  unfold segment at h
  cases hname : Segment.ofName? name with
  | none =>
    rw [hname] at h
    exact absurd h fail_ne_ok
  | some found =>
    rw [hname] at h
    obtain ⟨rfl, rfl, rfl⟩ := done_eq_ok_iff.1 h
    exact ⟨rfl, rfl, rfl⟩

theorem argumentOf_eq_ok {c : Command} {text : String}
    (h : argumentOf c s = ⟨lines, s', .ok text⟩) : lines = [] ∧ s' = s ∧ c.argument = .ok text :=
  ofExcept_eq_ok_iff.1 h

theorem countOf_eq_ok {c : Command} {n : Int} (h : countOf c s = ⟨lines, s', .ok n⟩) :
    lines = [] ∧ s' = s ∧ c.count = .ok n :=
  ofExcept_eq_ok_iff.1 h

/-! ### Commands -/

theorem arithmetic_eq_ok {text : String} {u : Unit}
    (h : arithmetic text s = ⟨lines, s', .ok u⟩) :
    ∃ op, Operation.ofName? text = some op ∧
      lines = ((Instruction.operation op).code s).map .statement ∧
      s' = (Instruction.operation op).after s := by
  unfold arithmetic at h
  cases hop : Operation.ofName? text with
  | none =>
    rw [hop] at h
    exact absurd h fail_ne_ok
  | some op =>
    rw [hop] at h
    exact ⟨op, rfl, operation_eq_ok h⟩

/-- Whenever code is emitted for a command, it is the code of the instruction that the command reads
as. -/
theorem plainCommand_eq_ok {c : Command} {u : Unit} (h : plainCommand c s = ⟨lines, s', .ok u⟩) :
    ∃ i, Instruction.ofCommand? c = some i ∧ i.IsLegal ∧ lines = (i.code s).map .statement ∧
      s' = i.after s := by
  unfold plainCommand at h
  unfold Instruction.ofCommand?
  -- for each kind, the arguments are read one by one, and then the code is put out
  cases hkind : c.kind with
  | arithmetic =>
    simp only [hkind, bind_eq, andThen_eq_ok_iff] at h
    obtain ⟨_, _, _, _, ha, hop, rfl⟩ := h
    obtain ⟨rfl, rfl, harg⟩ := argumentOf_eq_ok ha
    obtain ⟨op, hname, rfl, rfl⟩ := arithmetic_eq_ok hop
    have htext : c.argument = .ok c.text := by
      rw [Command.argument, hkind]
    rw [htext] at harg
    injection harg with harg
    exact ⟨.operation op, by simp [harg, hname], fun _ => nofun, rfl, rfl⟩
  | push =>
    simp only [hkind, access, bind_eq, andThen_eq_ok_iff] at h
    obtain ⟨_, _, name, _, ha, ⟨_, _, n, _, hc, ⟨_, _, seg, _, hs, hpush, rfl⟩, rfl⟩, rfl⟩ := h
    obtain ⟨rfl, rfl, harg⟩ := argumentOf_eq_ok ha
    obtain ⟨rfl, rfl, hcount⟩ := countOf_eq_ok hc
    obtain ⟨rfl, rfl, hseg⟩ := segment_eq_ok hs
    obtain ⟨rfl, rfl⟩ := push_eq_ok hpush
    exact ⟨.push seg n, by simp [harg, hcount, hseg, Except.toOption], fun _ => nofun, rfl, rfl⟩
  | pop =>
    simp only [hkind, access, bind_eq, andThen_eq_ok_iff] at h
    obtain ⟨_, _, name, _, ha, ⟨_, _, n, _, hc, ⟨_, _, seg, _, hs, hpop, rfl⟩, rfl⟩, rfl⟩ := h
    obtain ⟨rfl, rfl, harg⟩ := argumentOf_eq_ok ha
    obtain ⟨rfl, rfl, hcount⟩ := countOf_eq_ok hc
    obtain ⟨rfl, rfl, hseg⟩ := segment_eq_ok hs
    obtain ⟨hne, rfl, rfl⟩ := pop_eq_ok hpop
    refine ⟨.pop seg n, by simp [harg, hcount, hseg, Except.toOption], fun index heq => ?_, rfl,
      rfl⟩
    injection heq with heq
    exact hne heq
  | label =>
    simp only [hkind, bind_eq, andThen_eq_ok_iff] at h
    obtain ⟨_, _, name, _, ha, hlabel, rfl⟩ := h
    obtain ⟨rfl, rfl, harg⟩ := argumentOf_eq_ok ha
    obtain ⟨rfl, rfl⟩ := label_eq_ok hlabel
    exact ⟨.label name, by simp [harg, Except.toOption], fun _ => nofun, rfl, rfl⟩
  | goto =>
    simp only [hkind, bind_eq, andThen_eq_ok_iff] at h
    obtain ⟨_, _, name, _, ha, hgoto, rfl⟩ := h
    obtain ⟨rfl, rfl, harg⟩ := argumentOf_eq_ok ha
    obtain ⟨rfl, rfl⟩ := goto_eq_ok hgoto
    exact ⟨.goto name, by simp [harg, Except.toOption], fun _ => nofun, rfl, rfl⟩
  | ifGoto =>
    simp only [hkind, bind_eq, andThen_eq_ok_iff] at h
    obtain ⟨_, _, name, _, ha, hgoto, rfl⟩ := h
    obtain ⟨rfl, rfl, harg⟩ := argumentOf_eq_ok ha
    obtain ⟨rfl, rfl⟩ := ifGoto_eq_ok hgoto
    exact ⟨.ifGoto name, by simp [harg, Except.toOption], fun _ => nofun, rfl, rfl⟩
  | function =>
    simp only [hkind, bind_eq, andThen_eq_ok_iff] at h
    obtain ⟨_, _, name, _, ha, ⟨_, _, n, _, hc, hfunction, rfl⟩, rfl⟩ := h
    obtain ⟨rfl, rfl, harg⟩ := argumentOf_eq_ok ha
    obtain ⟨rfl, rfl, hcount⟩ := countOf_eq_ok hc
    obtain ⟨rfl, rfl⟩ := function_eq_ok hfunction
    exact ⟨.function name n, by simp [harg, hcount, Except.toOption], fun _ => nofun, rfl, rfl⟩
  | call =>
    simp only [hkind, bind_eq, andThen_eq_ok_iff] at h
    obtain ⟨_, _, name, _, ha, ⟨_, _, n, _, hc, hcall, rfl⟩, rfl⟩ := h
    obtain ⟨rfl, rfl, harg⟩ := argumentOf_eq_ok ha
    obtain ⟨rfl, rfl, hcount⟩ := countOf_eq_ok hc
    obtain ⟨rfl, rfl⟩ := call_eq_ok hcall
    exact ⟨.call name n, by simp [harg, hcount, Except.toOption], fun _ => nofun, rfl, rfl⟩
  | ret =>
    simp only [hkind, ret, statements_eq_ok_iff] at h
    obtain ⟨rfl, rfl⟩ := h
    exact ⟨.ret, rfl, fun _ => nofun, rfl, rfl⟩

end Emitter

end HackToolchain.VM
