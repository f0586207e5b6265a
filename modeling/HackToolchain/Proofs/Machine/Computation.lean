import HackToolchain.Asm.Word
import HackToolchain.Machine.Processor
import Mathlib.Logic.Function.Basic

/-!
# What computations compute

The registers and the memory cells of the machine hold sixteen-bit values.  `Comp.value` says what
each computation makes of them and `Jump.holds` when each jump is taken, without any mention of
control bits.

* `arithmetic_code`: the arithmetic unit under the code of a computation gives its value, also for
  a first operand that is no sixteen-bit value;
* `takesJump_bits`: the flags of a result and the field of a jump decide as `Jump.holds`;
* `Word.code_encode` and its companions: the fields of the word of a computation.
-/

namespace HackToolchain

open Asm

/-- A sixteen-bit value. -/
abbrev Value : Type := BitVec 16

/-- A memory, as the values of all addresses. -/
abbrev Memory : Type := Value → Value

/-! ### The meaning of computations and jumps -/

namespace Asm

/-- The operand that a computation uses besides `D`; the register `A` if it uses none. -/
def Comp.operand : Comp → Operand
  | .get y | .not y | .neg y | .inc y | .dec y | .add y _ | .sub y | .subD y | .and y _
  | .or y _ => y
  | _ => .a

/-- The value of a computation, given `D` and the second operand. -/
def Comp.value (d y : Value) : Comp → Value
  | .zero => 0
  | .one => 1
  | .minusOne => -1
  | .d => d
  | .notD => ~~~d
  | .negD => -d
  | .incD => d + 1
  | .decD => d - 1
  | .get _ => y
  | .not _ => ~~~y
  | .neg _ => -y
  | .inc _ => y + 1
  | .dec _ => y - 1
  | .add _ _ => d + y
  | .sub _ => d - y
  | .subD _ => y - d
  | .and _ _ => d &&& y
  | .or _ _ => d ||| y

/-- A jump is taken after a result. -/
def Jump.holds (x : Value) : Jump → Bool
  | .never => false
  | .gt => 0 < x.toInt
  | .eq => x.toInt == 0
  | .ge => 0 ≤ x.toInt
  | .lt => x.toInt < 0
  | .ne => x.toInt != 0
  | .le => x.toInt ≤ 0
  | .always => true

end Asm

/-! ### The arithmetic unit -/

namespace Machine

theorem emod_eq_toNat_ofInt (x : Int) : x % 0x10000 = (BitVec.ofInt 16 x).toNat := by
  rw [BitVec.toNat_ofInt]
  omega

theorem complement_eq (x : Int) : complement x = (~~~BitVec.ofInt 16 x : Value).toNat := by
  have h := emod_eq_toNat_ofInt x
  rw [complement, BitVec.toNat_not]
  omega

theorem ofInt_toNat (x : Value) : BitVec.ofInt 16 (x.toNat : Int) = x := by
  simp

/-- An operand after it may have been cleared and then complemented, as a value. -/
def prepareValue (clear flip : Bool) (x : Value) : Value :=
  let x := if clear then 0 else x
  if flip then ~~~x else x

theorem ofInt_complement (x : Int) :
    BitVec.ofInt 16 (complement x) = ~~~BitVec.ofInt 16 x := by
  rw [complement_eq, ofInt_toNat]

theorem ofInt_prepare (clear flip : Bool) (x : Int) :
    BitVec.ofInt 16 (prepare clear flip x) = prepareValue clear flip (BitVec.ofInt 16 x) := by
  cases clear <;> cases flip <;> simp [prepare, prepareValue, ofInt_complement]

theorem prepare_toNat (clear flip : Bool) (x : Value) :
    prepare clear flip x.toNat = (prepareValue clear flip x).toNat := by
  cases clear <;> cases flip <;> simp [prepare, prepareValue, complement_eq]

theorem toNat_and_not (x y : Value) : (~~~x &&& y).toNat = y.toNat - (y &&& x).toNat := by
  have hle : y &&& x ≤ y := by
    rw [BitVec.le_def, BitVec.toNat_and]
    exact Nat.and_le_left
  have hsum : (y &&& x) + (~~~x &&& y) = y := by
    rw [BitVec.add_eq_or_of_and_eq_zero]
    · ext i hi
      simp only [BitVec.getElem_or, BitVec.getElem_and, BitVec.getElem_not]
      cases x[i] <;> cases y[i] <;> rfl
    · ext i hi
      simp only [BitVec.getElem_and, BitVec.getElem_not, BitVec.getElem_zero]
      cases x[i] <;> cases y[i] <;> rfl
  have hsub : ~~~x &&& y = y - (y &&& x) := by
    rw [eq_comm, BitVec.sub_eq_iff_eq_add, BitVec.add_comm, hsum]
  rw [hsub, BitVec.toNat_sub_of_le hle]

/-- A conjunction with a value depends on the last sixteen bits of the other operand alone. -/
theorem conjunction_toNat (x : Int) (y : Value) :
    conjunction x y.toNat = (BitVec.ofInt 16 x &&& y : Value).toNat := by
  have hy : ∀ n : Nat, n &&& y.toNat = (BitVec.ofNat 16 n &&& y).toNat := by
    intro n
    have h := Nat.and_mod_two_pow (a := n) (b := y.toNat) (n := 16)
    rw [Nat.mod_eq_of_lt (Nat.lt_of_le_of_lt Nat.and_le_right y.isLt),
      Nat.mod_eq_of_lt y.isLt] at h
    rw [BitVec.toNat_and, BitVec.toNat_ofNat]
    exact h
  cases x with
  | ofNat n => exact congrArg Int.ofNat (hy n)
  | negSucc n =>
    have h : (conjunction (.negSucc n) y.toNat) = ((y.toNat - (n &&& y.toNat) : Nat) : Int) := by
      rw [Nat.and_comm]; rfl
    rw [h, hy, BitVec.and_comm, BitVec.ofInt_negSucc_eq_not_ofNat, toNat_and_not]

/-- The result of the arithmetic unit as a value. -/
def arithmeticValue (control : Nat) (x y : Value) : Value :=
  let x := prepareValue (control.testBit 5) (control.testBit 4) x
  let y := prepareValue (control.testBit 3) (control.testBit 2) y
  let out := if control.testBit 1 then x + y else x &&& y
  if control.testBit 0 then ~~~out else out

theorem arithmetic_toNat (control : Nat) (x : Int) (y : Value) :
    arithmetic control x y.toNat = (arithmeticValue control (BitVec.ofInt 16 x) y).toNat := by
  have hout : (if control.testBit 1 then
        (prepare (control.testBit 5) (control.testBit 4) x
          + prepare (control.testBit 3) (control.testBit 2) y.toNat) % 0x10000
      else conjunction (prepare (control.testBit 5) (control.testBit 4) x)
        (prepare (control.testBit 3) (control.testBit 2) y.toNat))
      = ((if control.testBit 1 then
          prepareValue (control.testBit 5) (control.testBit 4) (BitVec.ofInt 16 x)
            + prepareValue (control.testBit 3) (control.testBit 2) y
        else prepareValue (control.testBit 5) (control.testBit 4) (BitVec.ofInt 16 x)
          &&& prepareValue (control.testBit 3) (control.testBit 2) y : Value).toNat : Int) := by
    rw [prepare_toNat, ← ofInt_prepare]
    split
    · rw [emod_eq_toNat_ofInt, BitVec.ofInt_add, ofInt_toNat]
    · exact conjunction_toNat _ _
  simp only [arithmetic, arithmeticValue, hout]
  split
  · rw [complement_eq, ofInt_toNat]
  · rfl

theorem not_not_and_not (x y : Value) : ~~~(~~~x &&& ~~~y) = x ||| y := by
  rw [BitVec.not_and, BitVec.not_not, BitVec.not_not]

/-- The control bits of a computation make the arithmetic unit compute it. -/
theorem arithmeticValue_code (comp : Comp) (d y : Value) :
    arithmeticValue comp.code d y = comp.value d y := by
  have hl : ∀ x : Value, 65535#16 &&& x = x := fun _ => BitVec.allOnes_and
  have hr : ∀ x : Value, x &&& 65535#16 = x := fun _ => BitVec.and_allOnes
  cases comp with
  | get o | not o | and o _ =>
    cases o <;> simp [arithmeticValue, prepareValue, Comp.code, Comp.operandCode, Comp.value,
      Nat.testBit, hl]
  | or o _ =>
    cases o <;> simp [arithmeticValue, prepareValue, Comp.code, Comp.operandCode, Comp.value,
      Nat.testBit, not_not_and_not]
  | d | notD => simp [arithmeticValue, prepareValue, Comp.code, Comp.value, Nat.testBit, hr]
  | zero | one | minusOne =>
    simp [arithmeticValue, prepareValue, Comp.code, Comp.value, Nat.testBit]
  | add o _ =>
    cases o <;> simp [arithmeticValue, prepareValue, Comp.code, Comp.operandCode, Comp.value,
      Nat.testBit]
  -- the rest adds complements, or all ones, which are minus one
  | negD | incD | decD =>
    simp [arithmeticValue, prepareValue, Comp.code, Comp.value, Nat.testBit]
    bv_omega
  | neg o | inc o | dec o | sub o | subD o =>
    cases o <;>
    · simp [arithmeticValue, prepareValue, Comp.code, Comp.operandCode, Comp.value, Nat.testBit]
      bv_omega

/-- The arithmetic unit computes what the code of a computation stands for. -/
theorem arithmetic_code (comp : Comp) (d : Int) (y : Value) :
    arithmetic comp.code d y.toNat = (comp.value (BitVec.ofInt 16 d) y).toNat := by
  rw [arithmetic_toNat, arithmeticValue_code]

theorem code_testBit_six (comp : Comp) : comp.code.testBit 6 = (comp.operand == .m) := by
  cases comp with
  | get o | not o | neg o | inc o | dec o | sub o | subD o => cases o <;> rfl
  | add o w | and o w | or o w => cases o <;> cases w <;> rfl
  | _ => rfl

/-! ### Jumps -/

/-- The flags of a result and the field of a jump decide whether it is taken. -/
theorem takesJump_bits (jump : Jump) (x : Value) :
    takesJump jump.bits ((x.toNat : Int) == 0) ((x.toNat : Int) / 0x8000 % 2 == 1)
      = jump.holds x := by
  have hlt := x.isLt
  have hint : x.toInt = if x.toNat < 0x8000 then (x.toNat : Int) else x.toNat - 0x10000 := by
    rw [BitVec.toInt_eq_toNat_cond]
    split <;> split <;> omega
  have hzr : ((x.toNat : Int) == 0) = decide (x.toInt = 0) := by
    rw [beq_eq_decide, decide_eq_decide, hint]
    split <;> omega
  have hng : ((x.toNat : Int) / 0x8000 % 2 == 1) = decide (x.toInt < 0) := by
    rw [beq_eq_decide, decide_eq_decide, hint]
    split <;> omega
  rw [hzr, hng]
  rw [Bool.eq_iff_iff]
  cases jump <;> simp [takesJump, Jump.bits, Jump.holds, Nat.testBit] <;> omega

end Machine

/-! ### Fields of a word -/

namespace Asm

/-- The destination field has the bit of each register that it names. -/
theorem Dest.bits_eq (dest : Dest) :
    dest.bits = (if .a ∈ dest.registers then 4 else 0) + (if .d ∈ dest.registers then 2 else 0)
      + (if .m ∈ dest.registers then 1 else 0) := by
  obtain ⟨rs, hrs⟩ := dest
  simp only [Dest.bits]
  induction rs with
  | nil => rfl
  | cons r rs ih =>
    obtain ⟨hr, hrs⟩ := List.nodup_cons.1 hrs
    rw [List.foldr_cons, ih hrs]
    cases r <;> simp [Register.bit, hr] <;> omega

theorem Dest.bits_lt (dest : Dest) : dest.bits < 8 := by
  rw [dest.bits_eq]
  split <;> split <;> split <;> omega

theorem Jump.bits_lt (jump : Jump) : jump.bits < 8 := by
  cases jump <;> decide

theorem Dest.testBit_bits (dest : Dest) :
    dest.bits.testBit 0 = decide (Register.m ∈ dest.registers)
      ∧ dest.bits.testBit 1 = decide (Register.d ∈ dest.registers)
      ∧ dest.bits.testBit 2 = decide (Register.a ∈ dest.registers) := by
  rw [dest.bits_eq]
  by_cases ha : Register.a ∈ dest.registers <;> by_cases hd : Register.d ∈ dest.registers <;>
    by_cases hm : Register.m ∈ dest.registers <;> simp [ha, hd, hm, Nat.testBit]

namespace Word

variable (c : Compute)

theorem isCompute_encode : isCompute (c.encode : Nat) = true := by
  have := c.comp.code_lt
  have := c.dest.bits_lt
  have := c.jump.bits_lt
  simp only [isCompute, Compute.encode, beq_iff_eq]
  omega

theorem code_encode : code (c.encode : Nat) = c.comp.code := by
  have := c.comp.code_lt
  have := c.dest.bits_lt
  have := c.jump.bits_lt
  simp only [code, Compute.encode]
  omega

theorem dest_encode : dest (c.encode : Nat) = c.dest.bits := by
  have := c.dest.bits_lt
  have := c.jump.bits_lt
  simp only [dest, Compute.encode]
  omega

theorem jump_encode : jump (c.encode : Nat) = c.jump.bits := by
  have := c.jump.bits_lt
  simp only [jump, Compute.encode]
  omega

theorem isCompute_address {n : Nat} (h : n < 0x8000) : isCompute n = false := by
  simp only [isCompute, beq_eq_false_iff_ne]
  omega

end Word

end Asm

end HackToolchain
