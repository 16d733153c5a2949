import OliCompiler.Lower
import OliCompiler.Proofs.Evaluation.Basic

/-!
The operations of the machine are those of direct evaluation. What the machine computes in 32 bits is what 32
bits hold of the value of the integers, and only the least integer by minus one has a quotient too great for them.
-/

namespace OliCompiler.Machine

open Evaluation Lower

theorem quotient_large_iff (a b : Int32) (divides : b ≠ 0) :
    2147483647 < a.toInt.tdiv b.toInt ↔ a = Int32.minValue ∧ b = -1 := by
  have least := a.le_toInt
  have greatest := a.toInt_lt
  have nonzero : b.toInt ≠ 0 := fun zero => divides (Int32.toInt_inj.mp zero)
  have size := Int.natAbs_tdiv a.toInt b.toInt
  rw [← Int32.toInt_inj, ← Int32.toInt_inj (y := -1), Int32.toInt_minValue, show (-1 : Int32).toInt = -1 from rfl]
  by_cases unit : b.toInt.natAbs = 1
  · rcases (show b.toInt = 1 ∨ b.toInt = -1 by omega) with one | minus
    · rw [one, Int.tdiv_one]
      omega
    · rw [minus, Int.tdiv_neg, Int.tdiv_one]
      omega
  · -- A divisor of two or more in size leaves a quotient of at most half the size.
    have half : a.toInt.natAbs / b.toInt.natAbs ≤ a.toInt.natAbs / 2 :=
      Nat.div_le_div_left (by omega) (by decide)
    have size : (a.toInt.tdiv b.toInt).natAbs = a.toInt.natAbs / b.toInt.natAbs := size
    omega

theorem ofInt_tdiv (a b : Int32) : Int32.ofInt (a.toInt.tdiv b.toInt) = a / b := by
  rw [Int32.ofInt_tdiv a.minValue_le_toInt a.toInt_le b.minValue_le_toInt b.toInt_le, Int32.ofInt_toInt,
    Int32.ofInt_toInt]

/-- What an operator is lowered to computes what the operator stands for. -/
theorem arith_eq (function : String) (op : Arith) (a b : Int32) :
    arith function (arithOf op) a b = (calculate function op a.toInt b.toInt).map Int32.ofInt := by
  cases op with
  | add => exact congrArg Except.ok (by rw [Int32.ofInt_add, Int32.ofInt_toInt, Int32.ofInt_toInt])
  | sub => exact congrArg Except.ok (by rw [Int32.ofInt_sub, Int32.ofInt_toInt, Int32.ofInt_toInt])
  | mul => exact congrArg Except.ok (by rw [Int32.ofInt_mul, Int32.ofInt_toInt, Int32.ofInt_toInt])
  | div =>
    rw [arithOf, arith, calculate]
    by_cases zero : b = 0
    · rw [if_pos zero, if_pos (by rw [zero]; rfl)]
      rfl
    · have nonzero : b.toInt ≠ 0 := fun same => zero (Int32.toInt_inj.mp same)
      rw [if_neg zero, if_neg nonzero]
      by_cases large : a = Int32.minValue ∧ b = -1
      · rw [if_pos large, if_pos ((quotient_large_iff a b zero).mpr large)]
        rfl
      · rw [if_neg large, if_neg (mt (quotient_large_iff a b zero).mp large)]
        exact congrArg Except.ok (ofInt_tdiv a b).symm

/-- What a comparison is lowered to holds where the comparison does. -/
theorem holds_eq (op : Comparison) (a b : Int32) :
    (conditionOf op).holds a b = compares op a.toInt b.toInt := by
  cases op <;> simp [conditionOf, Ir.Condition.holds, compares, Int32.lt_iff_toInt_lt, Int32.le_iff_toInt_le,
    Int32.toInt_inj]

end OliCompiler.Machine
