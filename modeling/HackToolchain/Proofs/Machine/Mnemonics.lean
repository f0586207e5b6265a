import HackToolchain.Proofs.Asm.Reading
import HackToolchain.Proofs.Machine.Execution

/-!
# What a written computation does

A line of assembly language says what a computation is to do: letters for the registers that receive
the result, an expression, and the letters of a jump.  Here the three parts are given their meaning
as texts, and the machine is shown to do as the line says.

* `evaluate_text`, `isTaken_text`, `mem_text_dest`: the meaning of the texts is that of the
  computation that is read;
* `parts_of_read`: a line that is read as a computation consists of its texts, in whatever order the
  letters and the operands are written;
* `step_of_read`: one tick at the word of such a line.
-/

namespace HackToolchain.Asm

open Text

/-! ### The meaning of the texts -/

/-- The value of an operand of an expression. -/
def operandValue? (d a m : Value) : Char → Option Value
  | '0' => some 0
  | '1' => some 1
  | 'D' => some d
  | 'A' => some a
  | 'M' => some m
  | _ => none

/-- The value of an expression: an operand, an operand behind a sign, or two operands with a sign
between them. -/
def evaluate (d a m : Value) : List Char → Option Value
  | [x] => operandValue? d a m x
  | ['!', x] => do return ~~~(← operandValue? d a m x)
  | ['-', x] => do return -(← operandValue? d a m x)
  | [x, '+', y] => do return (← operandValue? d a m x) + (← operandValue? d a m y)
  | [x, '-', y] => do return (← operandValue? d a m x) - (← operandValue? d a m y)
  | [x, '&', y] => do return (← operandValue? d a m x) &&& (← operandValue? d a m y)
  | [x, '|', y] => do return (← operandValue? d a m x) ||| (← operandValue? d a m y)
  | _ => none

/-- Whether a jump is taken, by the sign of the result. -/
def isTaken (result : Int) : List Char → Option Bool
  | [] => some false
  | ['J', 'G', 'T'] => some (0 < result)
  | ['J', 'E', 'Q'] => some (result == 0)
  | ['J', 'G', 'E'] => some (0 ≤ result)
  | ['J', 'L', 'T'] => some (result < 0)
  | ['J', 'N', 'E'] => some (result != 0)
  | ['J', 'L', 'E'] => some (result ≤ 0)
  | ['J', 'M', 'P'] => some true
  | _ => none

theorem evaluate_text (d a m : Value) (comp : Comp) :
    evaluate d a m comp.text.toList =
      some (comp.value d (match comp.operand with | .a => a | .m => m)) := by
  cases comp with
  -- operands that may be written in either order are computed in one
  | add y order =>
    cases order with
    | dFirst => cases y <;> rfl
    | dLast =>
      cases y with
      | a => exact congrArg some (BitVec.add_comm a d)
      | m => exact congrArg some (BitVec.add_comm m d)
  | and y order =>
    cases order with
    | dFirst => cases y <;> rfl
    | dLast =>
      cases y with
      | a => exact congrArg some (BitVec.and_comm a d)
      | m => exact congrArg some (BitVec.and_comm m d)
  | or y order =>
    cases order with
    | dFirst => cases y <;> rfl
    | dLast =>
      cases y with
      | a => exact congrArg some (BitVec.or_comm a d)
      | m => exact congrArg some (BitVec.or_comm m d)
  | get y | not y | neg y | inc y | dec y | sub y | subD y => cases y <;> rfl
  | _ => rfl

theorem isTaken_text (x : Value) (jump : Jump) :
    isTaken x.toInt jump.text.toList = some (jump.holds x) := by
  cases jump <;> rfl

theorem mem_text_dest (r : Register) (dest : Dest) :
    r.letter ∈ dest.text.toList ↔ r ∈ dest.registers := by
  have hinj : ∀ r r' : Register, r.letter = r'.letter → r = r' := by
    intro r r'
    cases r <;> cases r' <;> decide
  rw [Dest.text, String.toList_ofList, List.mem_map]
  constructor
  · rintro ⟨r', hr', hletter⟩
    exact hinj r' r hletter ▸ hr'
  · exact fun hr => ⟨r, hr, rfl⟩

/-- The letter of the memory cell stands in the texts of the computations that use it. -/
theorem mem_text_comp (comp : Comp) : 'M' ∈ comp.text.toList ↔ comp.operand = .m := by
  have h : ∀ comp ∈ Comp.all, 'M' ∈ comp.text.toList ↔ comp.operand = .m := by decide
  exact h comp comp.mem_all

/-! ### Reading computations -/

/-- The destination, the expression and the jump on a line, as texts. -/
def partsOf (line : String) : List Char × List Char × List Char :=
  splitParts ((strip (beforeSlashes line.toList)).filter (· != ' '))

theorem Comp.text_of_ofText? {text : String} {comp : Comp} (h : Comp.ofText? text = some comp) :
    comp.text = text :=
  beq_iff_eq.1 (List.find?_some h :)

theorem Jump.text_of_ofText? {text : String} {jump : Jump} (h : Jump.ofText? text = some jump) :
    jump.text = text :=
  beq_iff_eq.1 (List.find?_some h :)

theorem Register.letter_of_ofLetter? {c : Char} {r : Register} (h : Register.ofLetter? c = some r) :
    r.letter = c := by
  unfold Register.ofLetter? at h
  split at h
  all_goals cases h
  all_goals rfl

theorem Dest.text_of_ofText? {text : String} {dest : Dest} (h : Dest.ofText? text = some dest) :
    dest.text = text := by
  have hletters {cs : List Char} {rs : List Register} (h : cs.mapM Register.ofLetter? = some rs) :
      rs.map Register.letter = cs := by
    induction cs generalizing rs with
    | nil =>
      cases h
      rfl
    | cons c cs ih =>
      rw [List.mapM_cons] at h
      obtain ⟨r, hr, h⟩ := Option.bind_eq_some_iff.1 h
      obtain ⟨rs', hrs, h⟩ := Option.bind_eq_some_iff.1 h
      cases h
      rw [List.map_cons, Register.letter_of_ofLetter? hr, ih hrs]
  unfold Dest.ofText? at h
  obtain ⟨rs, hrs, h⟩ := Option.bind_eq_some_iff.1 h
  split at h
  · cases h
    rw [Dest.text, hletters hrs, String.ofList_toList]
  · cases h

theorem Compute.parts_of_read {number : Nat} {cs : List Char} {k : Compute}
    (h : Compute.read number cs = .ok k) :
    splitParts (cs.filter (· != ' ')) =
      (k.dest.text.toList, k.comp.text.toList, k.jump.text.toList) := by
  unfold Compute.read at h
  rcases hparts : splitParts (cs.filter (· != ' ')) with ⟨dest, comp, jump⟩
  rw [hparts] at h
  dsimp only at h
  split at h
  · cases h
  · rename_i _ hcomp
    split at h
    · cases h
    · rename_i _ hjump
      split at h
      · cases h
      · rename_i _ hdest
        injection h with h
        subst h
        rw [Dest.text_of_ofText? hdest, Comp.text_of_ofText? hcomp, Jump.text_of_ofText? hjump]
        simp only [String.toList_ofList]

/-- A line that is read as a computation consists of the texts of its parts. -/
theorem parts_of_read {number : Nat} {line : String} {k : Compute}
    (h : Statement.read number line = .ok (some (.compute k))) :
    partsOf line = (k.dest.text.toList, k.comp.text.toList, k.jump.text.toList) := by
  unfold Statement.read at h
  rw [partsOf]
  generalize strip (beforeSlashes line.toList) = cs at h ⊢
  split at h
  · cases h
  · obtain ⟨_, -, heq⟩ := Except.map_eq_ok h
    cases heq
  · obtain ⟨_, -, heq⟩ := Except.map_eq_ok h
    cases heq
  · obtain ⟨k', hread, heq⟩ := Except.map_eq_ok h
    cases heq
    exact Compute.parts_of_read hread

end HackToolchain.Asm

namespace HackToolchain.Machine

open Asm

/-! ### One tick -/

namespace Ram

/-- The memory after a computation at the address `a`: the operand has been fetched, and then the
result `r` has been written. -/
def compute (ram : Ram) (k : Compute) (a r : Value) : Ram :=
  let fetched := if k.comp.operand = .m then ram.grow a.toNat else ram
  if .m ∈ k.dest.registers then fetched.put a.toNat r.toNat else fetched

theorem get_compute (ram : Ram) (k : Compute) (a r : Value) (i : Nat) :
    (ram.compute k a r).get i =
      if .m ∈ k.dest.registers ∧ a.toNat = i then r.toNat else ram.get i := by
  have hfetched : (if k.comp.operand = .m then ram.grow a.toNat else ram).get i = ram.get i := by
    split
    · exact ram.get_grow _ _
    · rfl
  have hword : Word.toNat r.toNat = r.toNat := by
    have := r.isLt
    rw [Word.toNat]
    omega
  unfold compute
  by_cases hm : .m ∈ k.dest.registers
  · rw [if_pos hm, get_put, hfetched, hword]
    simp only [hm, true_and]
  · rw [if_neg hm, hfetched, if_neg fun h => hm h.1]

theorem size_compute (ram : Ram) (k : Compute) (a r : Value) :
    (ram.compute k a r).size =
      if .m ∈ k.dest.registers ∨ k.comp.operand = .m then max ram.size (a.toNat + 1)
      else ram.size := by
  rw [compute]
  by_cases hm : .m ∈ k.dest.registers <;> by_cases hop : k.comp.operand = .m
  · simp only [hm, hop, if_true, true_or, size_put, size_grow]
    omega
  · simp only [hm, hop, if_true, if_false, true_or, size_put]
  · simp only [hm, hop, if_true, if_false, or_true, size_grow]
  · simp only [hm, hop, if_false, or_self]

end Ram

/-- What a written computation makes of a state, with the memory `ram` that the writes due before it
have left: `r` is the value of the expression, and `taken` says whether the jump is taken. -/
structure Computed (c : Computer) (line : String) (k : Compute) (pc : Nat) (a r : Value)
    (taken : Bool) (s : State) (ram : Ram) (s' : State) : Prop where
  /-- The result is the value of the expression, and has its flags. -/
  out_eq : s'.data.out = r.toNat
  zr_eq : s'.data.zr = decide (r = 0)
  ng_eq : s'.data.ng = decide (r.toInt < 0)
  /-- It goes where the letters say. -/
  a_eq : s'.data.a = if 'A' ∈ (partsOf line).1 then (r.toNat : Int) else s.data.a
  d_eq : s'.data.d = if 'D' ∈ (partsOf line).1 then (r.toNat : Int) else s.data.d
  /-- Memory is written at the address that `A` held before. -/
  ram_eq : ∀ i, s'.data.ram.get i =
    if 'M' ∈ (partsOf line).1 ∧ a.toNat = i then r.toNat else ram.get i
  /-- It grows up to the cell that is written or read. -/
  size_eq : s'.data.ram.size =
    if 'M' ∈ (partsOf line).1 ∨ 'M' ∈ (partsOf line).2.1 then max ram.size (a.toNat + 1)
    else ram.size
  /-- The jump goes to the address that `A` held before. -/
  pc_eq : s'.pc = if taken then (a.toNat : Int) else s.pc + 1
  /-- The machine halts behind the program and on an idle loop. -/
  halted_eq : s'.halted = (decide (k.jump = .always) && decide (c.IsIdle pc a.toNat) &&
    !c.schedule.hasLater s.tick || c.isPastEnd s'.pc)
  tick_eq : s'.tick = s.tick + 1
  ir_eq : s'.ir = some (k.encode : Int)
  lastFetch_eq : s'.lastFetch = s.pc

/-- Executing the word of a computation. -/
theorem Computer.execute_encode {c : Computer} {s : State} {v : View} {k : Compute} {pc : Nat}
    (hv : s.data.Shows v) (hfetch : s.lastFetch = pc) (hpc : pc < c.rom.size) :
    c.execute k.encode s =
      .ok (c.finish (if k.jump.holds (v.result k) then v.a.toNat else s.pc + 1) { s with
        data := { s.data.setResult (v.result k).toNat with
          a := if .a ∈ k.dest.registers then (v.result k).toNat else s.data.a
          d := if .d ∈ k.dest.registers then (v.result k).toNat else s.data.d
          ram := s.data.ram.compute k v.a (v.result k) }
        halted := s.halted || (decide (k.jump = .always) && decide (c.IsIdle pc v.a.toNat) &&
          !c.schedule.hasLater s.tick) }) := by
  obtain ⟨data, spc, ir, tick, halted, lastFetch⟩ := s
  obtain rfl : lastFetch = pc := hfetch
  rw [execute, Word.isCompute_encode, if_pos rfl, Word.code_encode, Word.dest_encode,
    Word.jump_encode]
  dsimp only at hv ⊢
  rw [Storage.compute_eq hv k, Outcome.andThen, hv.a, Storage.store_eq, Outcome.map,
    Outcome.andThen, c.branch_eq k.jump (x := v.result k) ⟨rfl, rfl, rfl⟩ rfl hpc]
  rfl

/-- One tick at the word of a line that is read as a computation, in a state whose registers hold
sixteen-bit values.  Whatever is due is written before. -/
theorem step_of_read {c : Computer} {s s₀ : State} {number pc : Nat} {line : String} {k : Compute}
    {a d : Value} (hread : Statement.read number line = .ok (some (.compute k)))
    (hword : c.rom[pc]? = some (k.encode : Int)) (hpc : s.pc = pc) (hrun : s.halted = false)
    (ha : s.data.a = a.toNat) (hd : s.data.d = d.toNat) (hdue : c.performDue s = .ok s₀) :
    ∃ r taken s', evaluate d a (s₀.data.ram.memory a) (partsOf line).2.1 = some r ∧
      isTaken r.toInt (partsOf line).2.2 = some taken ∧ c.step s = .ok s' ∧
      Computed c line k pc a r taken s s₀.data.ram s' := by
  have hparts := parts_of_read hread
  have hdest (reg : Register) : reg.letter ∈ (partsOf line).1 ↔ reg ∈ k.dest.registers := by
    rw [hparts]
    exact mem_text_dest reg k.dest
  have hcomp : 'M' ∈ (partsOf line).2.1 ↔ k.comp.operand = .m := by
    rw [hparts]
    exact mem_text_comp k.comp
  obtain ⟨hlt, -⟩ := Array.getElem?_eq_some_iff.1 hword
  -- what is due changes the memory alone
  have hsame := Computer.performDue_eq_ok hdue
  generalize s₀.data.ram = ram at hsame ⊢
  subst hsame
  have hv : ({ s.data with ram := ram } : Storage).Shows ⟨a, d, ram.memory⟩ :=
    ⟨ha, by rw [hd, ofInt_toNat], rfl⟩
  have hstep := (Computer.step_eq_execute hword hdue hpc hrun).trans
    (Computer.execute_encode (v := ⟨a, d, ram.memory⟩) hv rfl hlt)
  -- the result that the machine computes is the value of the expression
  generalize hr : View.result ⟨a, d, ram.memory⟩ k = r at hstep
  have hvalue : evaluate d a (ram.memory a) (partsOf line).2.1 = some r := by
    rw [hparts, evaluate_text, ← hr, View.result]
    cases k.comp.operand <;> rfl
  have htaken : isTaken r.toInt (partsOf line).2.2 = some (k.jump.holds r) := by
    rw [hparts]
    exact isTaken_text r k.jump
  have hresult := Storage.hasResult_setResult { s.data with ram := ram } r
  exact ⟨r, k.jump.holds r, _, hvalue, htaken, hstep, {
    out_eq := rfl
    zr_eq := hresult.zr_eq
    ng_eq := hresult.ng_eq
    a_eq := if_congr (hdest .a).symm rfl rfl
    d_eq := if_congr (hdest .d).symm rfl rfl
    ram_eq := fun i => (ram.get_compute k a r i).trans
      (if_congr (and_congr_left' (hdest .m).symm) rfl rfl)
    size_eq := (ram.size_compute k a r).trans
      (if_congr (or_congr (hdest .m).symm hcomp.symm) rfl rfl)
    pc_eq := rfl
    halted_eq := by
      show (s.halted || _ || _) = _
      rw [hrun, Bool.false_or]
      rfl
    tick_eq := rfl
    ir_eq := rfl
    lastFetch_eq := hpc.symm
  }⟩

/-- A program of one instruction, before which a cell is written. -/
def addition : Computer where
  rom := #[0xF09C]
  schedule := [⟨0, 7, 0x7FFF⟩]

/-- A state at that instruction, with a memory of one cell. -/
def beforeAddition : State where
  data := { Storage.fresh 1 with a := 7, d := 0x8000 }

theorem step_of_read_addition :
    ∃ s', addition.step beforeAddition = .ok s' ∧ s'.data.d = 0xFFFF ∧ s'.data.a = 7 ∧
      s'.data.ram.get 7 = 0xFFFF ∧ s'.data.ram.size = 8 ∧ s'.data.ng = true ∧ s'.pc = 7 := by
  have hparts : partsOf "DM = M+D ; JLT" = (['D', 'M'], ['M', '+', 'D'], ['J', 'L', 'T']) := by
    decide +kernel
  have hread : Statement.read 1 "DM = M+D ; JLT" =
      .ok (some (.compute ⟨⟨[.d, .m], by decide⟩, .add .m .dLast, .lt⟩)) := by
    decide +kernel
  have hwritten : (beforeAddition.data.ram.put 7 0x7FFF).memory 7 = 0x7FFF := by decide +kernel
  have hword : addition.rom[0]? = some (0xF09C : Int) := rfl
  obtain ⟨r, taken, s', hr, htaken, hstep, hs'⟩ := step_of_read (s := beforeAddition) (a := 7)
    (d := 0x8000) hread hword rfl rfl rfl rfl rfl
  rw [hparts] at hr htaken
  change evaluate 0x8000 7 ((beforeAddition.data.ram.put 7 0x7FFF).memory 7) _ = some r at hr
  rw [hwritten] at hr
  obtain rfl : 0xFFFF = r := Option.some.inj hr
  obtain rfl : true = taken := Option.some.inj htaken
  refine ⟨s', hstep, ?_, ?_, ?_, ?_, hs'.ng_eq, hs'.pc_eq⟩
  · rw [hs'.d_eq, hparts]
    rfl
  · rw [hs'.a_eq, hparts]
    rfl
  · rw [hs'.ram_eq, hparts]
    rfl
  · rw [hs'.size_eq, hparts]
    rfl

end HackToolchain.Machine
