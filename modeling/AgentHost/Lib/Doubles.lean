import Mathlib.Data.Rat.Floor
import Mathlib.Data.Int.Log
import Mathlib.Tactic.Linarith
import Mathlib.Tactic.NormNum
import Mathlib.Tactic.Positivity

/-!
# Doubles

The numbers of the language as rational numbers, without the sign of zero.

* `Doubles.nearest` — the double that a number is rounded to; `none` where it is infinite.
* `Doubles.nearest_intCast` — an integer of at most 53 bits is a double.
-/

namespace Doubles

/-- The nearest integer, an even one in the middle between two. -/
def roundEven (q : ℚ) : ℤ :=
  if q - ⌊q⌋ < 1 / 2 then ⌊q⌋
  else if 1 / 2 < q - ⌊q⌋ then ⌊q⌋ + 1
  else if ⌊q⌋ % 2 = 0 then ⌊q⌋
  else ⌊q⌋ + 1

/-- The distance of the doubles at a number. -/
def quantum (q : ℚ) : ℚ := 2 ^ max (Int.log 2 |q| - 52) (-1074)

/-- The least number that overflows: half a unit above the greatest double. -/
def overflow : ℚ := (2 ^ 54 - 1) * 2 ^ 970

/-- The double nearest to a number, `none` where it is infinite. -/
def nearest (q : ℚ) : Option ℚ :=
  if overflow ≤ |q| then none else some (roundEven (q / quantum q) * quantum q)

/-- The greatest safe integer, `Number.MAX_SAFE_INTEGER`. -/
def maxSafeInteger : Nat := 9007199254740991

theorem roundEven_intCast (n : ℤ) : roundEven (n : ℚ) = n := by
  rw [roundEven, if_pos]
  · exact Int.floor_intCast n
  · rw [Int.floor_intCast, sub_self]
    norm_num

theorem lt_overflow {n : ℤ} (h : n.natAbs ≤ maxSafeInteger) : |(n : ℚ)| < overflow := by
  have habs : |(n : ℚ)| ≤ 9007199254740991 := by
    rw [← Int.cast_abs, Int.abs_eq_natAbs]
    exact_mod_cast h
  have hscale : (1 : ℚ) ≤ 2 ^ 970 := one_le_pow₀ (by norm_num)
  have hoverflow : ((2 : ℚ) ^ 54 - 1) * 1 ≤ (2 ^ 54 - 1) * 2 ^ 970 :=
    mul_le_mul_of_nonneg_left hscale (by norm_num)
  refine habs.trans_lt (lt_of_lt_of_le ?_ hoverflow)
  norm_num

/-- The doubles at a safe integer are a whole part of one apart. -/
theorem exists_quantum {n : ℤ} (h : n.natAbs ≤ maxSafeInteger) :
    ∃ k : Nat, quantum (n : ℚ) = (2 ^ k)⁻¹ := by
  have hlog : Int.log 2 |(n : ℚ)| < 53 := by
    by_cases hzero : n = 0
    · rw [hzero, Int.cast_zero, abs_zero, Int.log_zero_right]
      norm_num
    · have hpos : 0 < |(n : ℚ)| := abs_pos.mpr (Int.cast_ne_zero.mpr hzero)
      rw [← Int.lt_zpow_iff_log_lt (by norm_num) hpos]
      have habs : |(n : ℚ)| ≤ 9007199254740991 := by
        rw [← Int.cast_abs, Int.abs_eq_natAbs]
        exact_mod_cast h
      refine habs.trans_lt ?_
      norm_num
  obtain ⟨k, hk⟩ : ∃ k : Nat, max (Int.log 2 |(n : ℚ)| - 52) (-1074) = -(k : ℤ) :=
    ⟨(-(max (Int.log 2 |(n : ℚ)| - 52) (-1074))).toNat, by omega⟩
  exact ⟨k, by rw [quantum, hk, zpow_neg, zpow_natCast]⟩

/-- A safe integer is a double. -/
theorem nearest_intCast {n : ℤ} (h : n.natAbs ≤ maxSafeInteger) : nearest (n : ℚ) = some (n : ℚ) := by
  rw [nearest, if_neg (not_le.mpr (lt_overflow h))]
  obtain ⟨k, hk⟩ := exists_quantum h
  have hcast : (n : ℚ) / quantum (n : ℚ) = ((n * 2 ^ k : ℤ) : ℚ) := by
    rw [hk, div_inv_eq_mul]
    push_cast
    rfl
  have hpow : (2 : ℚ) ^ k ≠ 0 := by positivity
  rw [hcast, roundEven_intCast, hk]
  push_cast
  rw [mul_assoc, mul_inv_cancel₀ hpow, mul_one]

end Doubles
