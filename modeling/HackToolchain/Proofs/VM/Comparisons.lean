import HackToolchain.Proofs.Asm.Image
import HackToolchain.Proofs.Machine.Transition
import HackToolchain.Proofs.VM.BlockExecution

/-!
# Comparisons

The code of a comparison subtracts the value on top of the stack from the one below it and decides
by the sign of the difference.  The difference of two signed values need not be a signed value
itself; when it is not, what the subtraction leaves of it has the other sign, and `gt` and `lt` say
the opposite of what holds.

* `result_eq_truth_iff`: the result is right for `eq`, and for the other two exactly if the
  difference fits;
* `comparison_decides_difference`: what the code of a comparison does anywhere in a program, to the
  stack and to the other cells.
-/

namespace HackToolchain.VM

open Asm Machine Code

/-! ### Signed values -/

/-- Whether a comparison holds between two signed values. -/
def Operation.relates (x y : Value) : Operation → Bool
  | .eq => x == y
  | .gt => y.toInt < x.toInt
  | .lt => x.toInt < y.toInt
  | _ => false

/-- The difference of two signed values is a signed value. -/
def DifferenceFits (x y : Value) : Prop :=
  -0x8000 ≤ x.toInt - y.toInt ∧ x.toInt - y.toInt < 0x8000

instance (x y : Value) : Decidable (DifferenceFits x y) :=
  inferInstanceAs (Decidable (_ ∧ _))

namespace Operation

theorem truth_inj {p q : Bool} : truth p = truth q ↔ p = q := by
  revert p q
  decide

theorem sub_beq_zero (x y : Value) : (x - y == 0) = (x == y) := by
  rw [Bool.eq_iff_iff, beq_iff_eq, beq_iff_eq]
  bv_omega

/-- The difference has its true sign exactly if it fits. -/
theorem toInt_sub_neg_iff (x y : Value) :
    ((x - y).toInt < 0 ↔ x.toInt < y.toInt) ↔ DifferenceFits x y := by
  have hx := BitVec.le_two_mul_toInt (x := x)
  have hx' := BitVec.two_mul_toInt_lt (x := x)
  have hy := BitVec.le_two_mul_toInt (x := y)
  have hy' := BitVec.two_mul_toInt_lt (x := y)
  rw [BitVec.toInt_sub, Int.bmod_def, DifferenceFits]
  split <;> omega

theorem toInt_sub_pos_iff (x y : Value) :
    (0 < (x - y).toInt ↔ y.toInt < x.toInt) ↔ DifferenceFits x y := by
  have hx := BitVec.le_two_mul_toInt (x := x)
  have hx' := BitVec.two_mul_toInt_lt (x := x)
  have hy := BitVec.le_two_mul_toInt (x := y)
  have hy' := BitVec.two_mul_toInt_lt (x := y)
  rw [BitVec.toInt_sub, Int.bmod_def, DifferenceFits]
  split <;> omega

/-- The result of a comparison says what holds between two signed values, except where `gt` or `lt`
decides by a difference that does not fit. -/
theorem result_eq_truth_iff {op : Operation} (hop : op.isComparison = true) (x y : Value) :
    op.result x y = truth (op.relates x y) ↔ op = .eq ∨ DifferenceFits x y := by
  cases op with
  | eq =>
    rw [result, relates, sub_beq_zero]
    simp
  | gt =>
    rw [result, relates, truth_inj, decide_eq_decide, toInt_sub_pos_iff]
    simp
  | lt =>
    rw [result, relates, truth_inj, decide_eq_decide, toInt_sub_neg_iff]
    simp
  | _ => contradiction

/-! ### Cells -/

/-- What a comparison does to the cells, if its operands are no register cells. -/
theorem apply_comparison_cells {op : Operation} (hop : op.isComparison = true) {m : Memory}
    (hsp : 258 ≤ (m.cell .sp).toNat) (z : Value) :
    op.apply m z =
      if z = m.cell .sp - 2 then op.result (m (m.cell .sp - 2)) (m (m.cell .sp - 1))
      else if z = Cell.sp.slot then m.cell .sp - 1 else m z := by
  have hbinary : op.isUnary = false := by
    cases op <;> first | rfl | contradiction
  have hplace : m.drop.cell .sp - 1 = m.cell .sp - 2 := by
    rw [Memory.cell_drop_sp]
    bv_omega
  -- moving `SP` leaves the two operands as they are
  have htop : m.drop.dropped = m (m.cell .sp - 1) := by
    rw [Memory.dropped, Memory.cell_drop_sp]
    refine Memory.setCell_of_ne ?_ _
    have : Cell.sp.slot = 0 := rfl
    bv_omega
  have hbelow : m.drop (m.cell .sp - 2) = m (m.cell .sp - 2) := by
    refine Memory.setCell_of_ne ?_ _
    have : Cell.sp.slot = 0 := rfl
    bv_omega
  rw [apply, hbinary, if_neg Bool.false_ne_true, hplace, htop, hbelow, Memory.set_apply]
  congr 1
  exact Memory.set_apply _ _ _ _

end Operation

/-! ### Programs -/

section Program

variable {program : List Placed} {k : Nat} {p : Placed} {op : Operation} {c : Computer} {st : State}

/-- The code of a comparison is loaded, if it ends where addresses still fit an instruction. -/
theorem loaded_comparison (hreadable : ∀ x ∈ codeOf program, x.IsReadable)
    (hcode : assembleStatements ((codeOf program).map Statement.reread) = .ok c.rom)
    (hp : program[k]? = some p) (hi : p.instruction = .operation op)
    (hop : op.isComparison = true) (hfits : startOf program (k + 1) < 0x8000) :
    Loaded c (.ofCode (codeOf program)) (startOf program k) (op.code p.scope) := by
  have hcodeOf : p.code = op.code p.scope := by
    rw [Placed.code, hi]
    rfl
  have hsymbols : symbols (op.code p.scope) = [Cell.sp.symbol, p.scope.numbered "TRUE_",
      Cell.sp.symbol, p.scope.numbered "END_", Cell.sp.symbol] := by
    cases op <;> first | rfl | contradiction
  have hlabels : labels (op.code p.scope) =
      [p.scope.numbered "TRUE_", p.scope.numbered "END_"] := by
    cases op <;> first | rfl | contradiction
  rw [← hcodeOf]
  refine loaded_block hreadable hcode hp fun name hname => ?_
  -- the symbols are `SP` and the two labels that the code declares itself
  have hcases : name = Cell.sp.symbol ∨ name ∈ labels p.code := by
    rw [hcodeOf, hsymbols] at hname
    rw [hcodeOf, hlabels]
    simp only [List.mem_cons, List.not_mem_nil] at hname ⊢
    tauto
  rcases hcases with rfl | hlabel
  · rw [Layout.address_symbol]
    decide
  · exact Nat.lt_of_le_of_lt (address_le_startOf hreadable hcode hp hlabel) hfits

end Program

/-- The code of a comparison, anywhere in a program that is compiled and assembled, takes one value
off the stack and puts the result in the place of the other; no other cell changes.  The result is
the sign of the difference: what holds between the two signed values, except that `gt` and `lt` say
the opposite where the difference does not fit. -/
theorem comparison_decides_difference {files : List SourceFile} {bootstrap comments : Bool}
    {text : List String} {words : Array Int} (hpaths : PathsAreProper files)
    (hcompile : compile files bootstrap comments = .ok text)
    (hassemble : assemble text = .ok words) {k : Nat} {p : Placed}
    (hp : (programOf files bootstrap)[k]? = some p) {op : Operation}
    (hi : p.instruction = .operation op) (hop : op.isComparison = true)
    (hfits : startOf (programOf files bootstrap) (k + 1) < 0x8000) {c : Computer}
    (hrom : c.rom = words) {st : State}
    (harrives : c.Arrives (startOf (programOf files bootstrap) k) st) (hhalted : st.halted = false)
    (ha : IsWord st.data.a) {sp : Value} (hsp : st.data.ram.memory.cell .sp = sp)
    (hstack : 258 ≤ sp.toNat) :
    let m := st.data.ram.memory
    let x := m (sp - 2)
    let y := m (sp - 1)
    ∃ st' r, c.Reaches st st' ∧ c.At (startOf (programOf files bootstrap) (k + 1)) st' ∧
      (∀ z, st'.data.ram.memory z =
        if z = sp - 2 then r else if z = Cell.sp.slot then sp - 1 else m z) ∧
      (∀ i, 0x10000 ≤ i → st'.data.ram.get i = st.data.ram.get i) ∧
      r = op.result x y ∧
      (r = Operation.truth (op.relates x y) ↔ op = .eq ∨ DifferenceFits x y) := by
  intro m x y
  subst hrom hsp
  obtain ⟨-, hreadable, hcode⟩ := assembled_of_compile hpaths hcompile hassemble
  have hl := loaded_comparison hreadable hcode hp hi hop hfits
  have hat : c.At (startOf (programOf files bootstrap) k) st :=
    ⟨harrives, fun h => absurd h (by rw [hhalted]; exact Bool.false_ne_true)⟩
  obtain ⟨st', hreach, hat', hmemory⟩ := executes_comparison hop hl hat
  have hnext : startOf (programOf files bootstrap) k + wordCount (op.code p.scope) =
      startOf (programOf files bootstrap) (k + 1) := by
    rw [startOf_succ hp, Placed.code, hi]
    rfl
  rw [hnext] at hat'
  refine ⟨st', op.result x y, hreach, hat', fun z => ?_, fun i hfar => ?_, rfl, ?_⟩
  · rw [hmemory]
    exact Operation.apply_comparison_cells hop hstack z
  · -- no instruction reaches beyond the address space
    exact Computer.get_of_reaches (assemble_bounds hassemble) harrives.quiet ha hreach hfar
  · exact Operation.result_eq_truth_iff hop x y

/-- A unit that compares. -/
def gtUnit : SourceFile where
  path := Files.Path.ofText "A.vm"
  bytes := "gt\n".toUTF8

/-- The words of its code. -/
def gtWords : Array Int :=
  #[0, 64680, 64528, 60576, 61904, 12, 58113, 0, 64672, 60040, 15, 60039, 0, 64672, 61064]

theorem exists_gtUnit :
    ∃ text, PathsAreProper [gtUnit] ∧ compile [gtUnit] false false = .ok text ∧
      assemble text = .ok gtWords ∧
      (programOf [gtUnit] false)[0]? = some ⟨{ unitName := "A" }, .operation .gt⟩ ∧
      startOf (programOf [gtUnit] false) 1 = 15 := by
  obtain ⟨text, words, hcompile, hassemble⟩ := exists_words [gtUnit] false false (by decide +kernel)
  have hpaths : PathsAreProper [gtUnit] := by
    unfold PathsAreProper
    decide +kernel
  have hwords : ((compile [gtUnit] false false).toOption.bind
      fun text => (assemble text).toOption) = some gtWords := by
    decide +kernel
  rw [hcompile] at hwords
  refine ⟨text, hpaths, hcompile, Except.toOption_eq_some hwords, ?_⟩
  decide +kernel

/-- A state with two values on the stack. -/
def twoValues (x y : Int) : State where
  data := { ram := (((Ram.zeros 1).put 0 258).put 256 x).put 257 y }

/-- Three is greater than minus two. -/
theorem comparison_decides_difference_small :
    ∃ st', Computer.Reaches { rom := gtWords } (twoValues 3 (-2)) st' ∧
      Computer.At { rom := gtWords } 15 st' ∧ st'.data.ram.memory 0 = 257 ∧
      st'.data.ram.memory 256 = 0xFFFF ∧ st'.data.ram.memory 257 = -2 := by
  obtain ⟨text, hpaths, hcompile, hassemble, hp, hstart⟩ := exists_gtUnit
  have hsp : (twoValues 3 (-2)).data.ram.memory.cell .sp = 258 := by decide +kernel
  have harrives : Computer.Arrives { rom := gtWords } (startOf (programOf [gtUnit] false) 0)
      (twoValues 3 (-2)) :=
    ⟨rfl, fun _ h => absurd h List.not_mem_nil⟩
  obtain ⟨st', r, hreach, hat, hcells, -, -, hright⟩ :=
    comparison_decides_difference hpaths hcompile hassemble hp rfl rfl (by rw [hstart]; decide)
      rfl harrives rfl (by decide) hsp (by decide)
  have hvalues : (twoValues 3 (-2)).data.ram.memory (258 - 2) = 3 ∧
      (twoValues 3 (-2)).data.ram.memory (258 - 1) = -2 := by
    decide +kernel
  rw [hvalues.1, hvalues.2] at hright
  have hr : r = 0xFFFF := hright.2 (.inr (by decide))
  rw [hstart] at hat
  refine ⟨st', hreach, hat, ?_, ?_, ?_⟩
  · rw [hcells]
    rfl
  · rw [hcells, hr]
    rfl
  · rw [hcells]
    exact hvalues.2

/-- The code of `gt` finds that `-0x8000` is greater than one. -/
theorem overflow_misleads_gt :
    ∃ text st', compile [gtUnit] false false = .ok text ∧ assemble text = .ok gtWords ∧
      Computer.At { rom := gtWords } 0 (twoValues (-0x8000) 1) ∧
      Computer.Reaches { rom := gtWords } (twoValues (-0x8000) 1) st' ∧
      Computer.At { rom := gtWords } 15 st' ∧
      st'.data.ram.memory 256 = Operation.truth true ∧
      Operation.relates ((twoValues (-0x8000) 1).data.ram.memory 256)
        ((twoValues (-0x8000) 1).data.ram.memory 257) .gt = false := by
  obtain ⟨text, -, hcompile, hassemble, hp, hstart⟩ := exists_gtUnit
  have hrun : (Computer.ticks { rom := gtWords } 10 (twoValues (-0x8000) 1)).cause? = none ∧
      (Computer.ticks { rom := gtWords } 10 (twoValues (-0x8000) 1)).state.pc = 15 ∧
      (Computer.ticks { rom := gtWords } 10 (twoValues (-0x8000) 1)).state.data.ram.get 256 =
        0xFFFF := by
    decide +kernel
  cases hend : Computer.ticks { rom := gtWords } 10 (twoValues (-0x8000) 1) with
  | fault cause st =>
    rw [hend] at hrun
    cases hrun.1
  | ok st' =>
    rw [hend] at hrun
    have hquiet (st : State) : ∀ event ∈ ({ rom := gtWords } : Computer).schedule,
        event.tick < st.tick :=
      fun _ h => absurd h List.not_mem_nil
    refine ⟨text, st', hcompile, hassemble, ⟨⟨rfl, hquiet _⟩, fun h => absurd h (by decide)⟩,
      ⟨10, hend⟩, ⟨⟨hrun.2.1, hquiet _⟩, fun _ => Nat.le_refl _⟩, ?_, by decide +kernel⟩
    exact congrArg (BitVec.ofNat 16) hrun.2.2

end HackToolchain.VM
