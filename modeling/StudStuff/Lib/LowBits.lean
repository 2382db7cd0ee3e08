import Mathlib.Algebra.Group.Nat.Defs
import Mathlib.Data.Nat.Notation
import Mathlib.Tactic.SplitIfs

/-!
# The low bits of a number

A number of a fixed width with its low bits cleared, or set. Clearing is what a mask does
(`and_mask`), and rounds down to a multiple of a power of two (`toNat_clearLow`). So the numbers
that agree above their low bits form an interval, from the one whose low bits are cleared to the
one whose low bits are set (`between_iff`).
-/

set_option autoImplicit false
set_option relaxedAutoImplicit false

namespace StudStuff.Lib

section LowBits

variable {width : ℕ} {first second : BitVec width}

/-- A number with its low bits cleared. -/
def clearLow (count : ℕ) (number : BitVec width) : BitVec width := number >>> count <<< count

/-- A number with its low bits set. -/
def setLow (count : ℕ) (number : BitVec width) : BitVec width :=
  number ||| BitVec.allOnes width >>> (width - count)

theorem getLsbD_clearLow (count : ℕ) (number : BitVec width) (index : ℕ) :
    (clearLow count number).getLsbD index = (decide (count ≤ index) && number.getLsbD index) := by
  rw [clearLow, BitVec.getLsbD_shiftLeft, BitVec.getLsbD_ushiftRight]
  by_cases hlow : count ≤ index
  · rw [Nat.add_sub_cancel' hlow]
    by_cases hindex : index < width
    · simp [hlow, hindex]
    · simp [BitVec.getLsbD_of_ge number index (Nat.le_of_not_lt hindex)]
  · simp [hlow, Nat.lt_of_not_le hlow]

theorem getLsbD_setLow {count : ℕ} (hcount : count ≤ width) (number : BitVec width)
    (index : ℕ) :
    (setLow count number).getLsbD index = (decide (index < count) || number.getLsbD index) := by
  have hlow : width - count + index < width ↔ index < count := by omega
  rw [setLow, BitVec.getLsbD_or, BitVec.getLsbD_ushiftRight, BitVec.getLsbD_allOnes,
    decide_eq_decide.mpr hlow, Bool.or_comm]

/-- A mask of leading ones clears the low bits. -/
theorem and_mask (count : ℕ) (number : BitVec width) :
    number &&& BitVec.allOnes width <<< count = clearLow count number := by
  apply BitVec.eq_of_getLsbD_eq
  intro index hindex
  rw [getLsbD_clearLow, BitVec.getLsbD_and, BitVec.getLsbD_shiftLeft, BitVec.getLsbD_allOnes]
  by_cases hlow : count ≤ index
  · have hshift : index - count < width := by omega
    simp [hlow, hindex, hshift]
  · simp [hlow, Nat.lt_of_not_le hlow]

/-- Clearing the low bits rounds down. -/
theorem toNat_clearLow (count : ℕ) (number : BitVec width) :
    (clearLow count number).toNat = 2 ^ count * (number.toNat / 2 ^ count) := by
  have hle : number.toNat / 2 ^ count * 2 ^ count < 2 ^ width :=
    Nat.lt_of_le_of_lt (Nat.div_mul_le_self _ _) number.isLt
  rw [clearLow, BitVec.toNat_shiftLeft, BitVec.toNat_ushiftRight, Nat.shiftRight_eq_div_pow,
    Nat.shiftLeft_eq, Nat.mod_eq_of_lt hle, Nat.mul_comm]

/-- Setting the low bits gives the last number before the next multiple. -/
theorem toNat_setLow {count : ℕ} (hcount : count ≤ width) (number : BitVec width) :
    (setLow count number).toNat =
      2 ^ count * (number.toNat / 2 ^ count) + (2 ^ count - 1) := by
  have hpositive : 0 < 2 ^ count := Nat.two_pow_pos count
  apply Nat.eq_of_testBit_eq
  intro index
  rw [BitVec.testBit_toNat, getLsbD_setLow hcount, Nat.testBit_two_pow_mul_add _ (by omega),
    Nat.testBit_two_pow_sub_one, Nat.testBit_div_two_pow, BitVec.testBit_toNat]
  split_ifs with hlow
  · rw [decide_eq_true hlow, Bool.true_or]
  · rw [decide_eq_false hlow, Bool.false_or, Nat.sub_add_cancel (Nat.le_of_not_lt hlow)]

/-- Numbers agree above their low bits exactly when they have the same quotient. -/
theorem clearLow_eq_iff {count : ℕ} : clearLow count first = clearLow count second ↔
    first.toNat / 2 ^ count = second.toNat / 2 ^ count := by
  rw [← BitVec.toNat_inj, toNat_clearLow, toNat_clearLow]
  exact Nat.mul_left_cancel_iff (Nat.two_pow_pos count)

/-- The numbers that agree with a number above its low bits lie between the ones with the low bits
cleared and set. -/
theorem between_iff {count : ℕ} (hcount : count ≤ width) :
    clearLow count first ≤ second ∧ second ≤ setLow count first ↔
      clearLow count second = clearLow count first := by
  have hpositive : 0 < 2 ^ count := Nat.two_pow_pos count
  rw [clearLow_eq_iff, BitVec.le_def, BitVec.le_def, toNat_clearLow, toNat_setLow hcount,
    Nat.div_eq_iff hpositive, Nat.mul_comm, Nat.add_sub_assoc hpositive]

end LowBits

end StudStuff.Lib
