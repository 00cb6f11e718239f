import Mathlib
import AgentHost.Lib.Doubles

/-!
# Rounding to doubles

* `Doubles.nearest_neg` — rounding keeps the sign.
* `Doubles.exists_multiple` — doubles are multiples of the least positive one.
* `Doubles.nearest_nearest` — **Main**: what a number is rounded to is a double, which is rounded to itself.
-/

namespace Doubles

/-! ### The sign of a number -/

theorem roundEven_neg (q : ℚ) : roundEven (-q) = -roundEven q := by
  have hfloor : (⌊q⌋ : ℚ) ≤ q := Int.floor_le q
  have hlt : q < ⌊q⌋ + 1 := Int.lt_floor_add_one q
  by_cases hint : q = ⌊q⌋
  · have hneg : -q = ((-⌊q⌋ : ℤ) : ℚ) := by
      rw [Int.cast_neg, ← hint]
    rw [hneg, roundEven_intCast, hint, roundEven_intCast, Int.floor_intCast]
  · have hpos : (⌊q⌋ : ℚ) < q := lt_of_le_of_ne hfloor (Ne.symm hint)
    have hnegfloor : ⌊-q⌋ = -⌊q⌋ - 1 := by
      rw [Int.floor_eq_iff]
      push_cast
      constructor <;> linarith
    unfold roundEven
    rw [hnegfloor]
    push_cast
    have hrest : -q - (-(⌊q⌋ : ℚ) - 1) = 1 - (q - ⌊q⌋) := by ring
    rw [hrest]
    rcases lt_trichotomy (q - ⌊q⌋) (1 / 2) with h | h | h
    · rw [if_neg (by linarith), if_pos (by linarith), if_pos h]
      ring
    · -- in the middle the parity decides on both sides
      have hflip : ¬ (1 - 1 / 2 : ℚ) < 1 / 2 ∧ ¬ (1 / 2 : ℚ) < 1 - 1 / 2 := by norm_num
      simp only [h, hflip.1, hflip.2, lt_irrefl, if_false]
      split <;> split <;> omega
    · rw [if_pos (by linarith), if_neg (by linarith), if_pos h]
      ring

theorem nearest_neg (q : ℚ) : nearest (-q) = (nearest q).map Neg.neg := by
  have hquantum : quantum (-q) = quantum q := by rw [quantum, quantum, abs_neg]
  unfold nearest
  rw [abs_neg, hquantum]
  split
  · rfl
  · rw [Option.map_some, neg_div, roundEven_neg, Int.cast_neg, neg_mul]

/-- Every double is a multiple of the least positive one. -/
theorem exists_multiple {q : ℚ} (h : nearest q = some q) : ∃ z : ℤ, q * 2 ^ 1074 = z := by
  unfold nearest at h
  split at h
  · cases h
  have hq := Option.some.inj h
  obtain ⟨k, hk⟩ : ∃ k : ℕ, max (Int.log 2 |q| - 52) (-1074) = (k : ℤ) - 1074 :=
    ⟨(max (Int.log 2 |q| - 52) (-1074) + 1074).toNat, by omega⟩
  refine ⟨roundEven (q / quantum q) * 2 ^ k, ?_⟩
  have hquantum : quantum q * 2 ^ 1074 = 2 ^ k := by
    rw [quantum, hk, zpow_sub₀ (by norm_num), zpow_natCast]
    have hpow : ((2 : ℚ) ^ (1074 : ℤ)) = 2 ^ 1074 := zpow_natCast 2 1074
    rw [hpow, div_mul_cancel₀]
    positivity
  calc q * 2 ^ 1074 = roundEven (q / quantum q) * quantum q * 2 ^ 1074 := by rw [hq]
    _ = ((roundEven (q / quantum q) * 2 ^ k : ℤ) : ℚ) := by
      rw [mul_assoc, hquantum]
      push_cast
      rfl

/-! ### Rounding a rounded number -/

theorem roundEven_le {q : ℚ} {m : ℤ} (h : q < m + 1 / 2) : roundEven q ≤ m := by
  have hfloor : (⌊q⌋ : ℚ) ≤ q := Int.floor_le q
  have hlt : (⌊q⌋ : ℚ) < m + 1 := by linarith
  have hint : ⌊q⌋ < m + 1 := by exact_mod_cast hlt
  by_cases hlast : ⌊q⌋ = m
  · have hfrac : q - ⌊q⌋ < 1 / 2 := by
      rw [hlast]
      linarith
    rw [roundEven, if_pos hfrac, hlast]
  · unfold roundEven
    split
    · omega
    split
    · omega
    split <;> omega

theorem abs_roundEven_le {q : ℚ} {m : ℤ} (h : |q| < m + 1 / 2) : |roundEven q| ≤ m := by
  obtain ⟨hlow, hhigh⟩ := abs_lt.mp h
  rw [abs_le]
  refine ⟨?_, roundEven_le hhigh⟩
  have hneg := roundEven_le (q := -q) (m := m) (by linarith)
  rw [roundEven_neg] at hneg
  omega

/-- The exponent of the distance of the doubles at a number. -/
theorem quantum_eq (q : ℚ) : quantum q = 2 ^ max (Int.log 2 |q| - 52) (-1074) := rfl

/-- A number that is not too large is a multiple of its distance at most `2 ^ 53` times. -/
theorem abs_div_quantum_lt (q : ℚ) : |q / quantum q| < 2 ^ 53 := by
  have hpos : 0 < quantum q := by
    rw [quantum_eq]
    positivity
  rw [abs_div, abs_of_pos hpos, div_lt_iff₀ hpos]
  have hlog : |q| < 2 ^ (Int.log 2 |q| + 1) := Int.lt_zpow_succ_log_self (by norm_num) |q|
  have hscale : (2 : ℚ) ^ (Int.log 2 |q| + 1) ≤ 2 ^ (53 + max (Int.log 2 |q| - 52) (-1074)) :=
    zpow_le_zpow_right₀ (by norm_num) (by omega)
  have hsplit : (2 : ℚ) ^ (53 + max (Int.log 2 |q| - 52) (-1074)) = 2 ^ 53 * quantum q := by
    rw [quantum_eq, zpow_add₀ (by norm_num)]
    norm_num
  linarith

/-- A multiple `r * 2 ^ e` with at most 53 bits is one of the distance that doubles have there. -/
theorem exists_div_quantum {r e : ℤ} (hr : |r| ≤ 2 ^ 53) (he : -1074 ≤ e) :
    ∃ z : ℤ, (r : ℚ) * 2 ^ e / quantum (r * 2 ^ e) = z := by
  by_cases hzero : r = 0
  · exact ⟨0, by rw [hzero]; simp⟩
  have hrpos : 0 < |(r : ℚ)| := abs_pos.mpr (by exact_mod_cast hzero)
  have hrle : |(r : ℚ)| ≤ 2 ^ 53 := by
    rw [← Int.cast_abs]
    exact_mod_cast hr
  have hpow : (0 : ℚ) < 2 ^ e := by positivity
  have habs : |(r : ℚ) * 2 ^ e| = |(r : ℚ)| * 2 ^ e := by rw [abs_mul, abs_of_pos hpow]
  have hpos : 0 < |(r : ℚ) * 2 ^ e| := by
    rw [habs]
    positivity
  rw [quantum_eq]
  by_cases hsmall : max (Int.log 2 |(r : ℚ) * 2 ^ e| - 52) (-1074) ≤ e
  · obtain ⟨k, hk⟩ : ∃ k : ℕ, e = max (Int.log 2 |(r : ℚ) * 2 ^ e| - 52) (-1074) + k :=
      ⟨(e - max (Int.log 2 |(r : ℚ) * 2 ^ e| - 52) (-1074)).toNat, by omega⟩
    refine ⟨r * 2 ^ k, ?_⟩
    generalize max (Int.log 2 |(r : ℚ) * 2 ^ e| - 52) (-1074) = e' at hk
    subst hk
    have hne : (2 : ℚ) ^ e' ≠ 0 := by positivity
    rw [zpow_add₀ (by norm_num), zpow_natCast]
    push_cast
    field_simp
  · -- only the greatest multiple has a greater distance
    have hlog : e + 53 ≤ Int.log 2 |(r : ℚ) * 2 ^ e| := by omega
    have hge : (2 : ℚ) ^ (e + 53) ≤ |(r : ℚ) * 2 ^ e| :=
      (zpow_le_zpow_right₀ (by norm_num) hlog).trans (Int.zpow_log_le_self (by norm_num) hpos)
    have hsplit : (2 : ℚ) ^ (e + 53) = 2 ^ 53 * 2 ^ e := by
      rw [zpow_add₀ (by norm_num), mul_comm]
      norm_num
    have hrge : (2 : ℚ) ^ 53 ≤ |(r : ℚ)| := by
      rw [habs, hsplit] at hge
      exact le_of_mul_le_mul_right hge hpow
    have hrabs : |(r : ℚ)| = 2 ^ 53 := le_antisymm hrle hrge
    have hexact : Int.log 2 |(r : ℚ) * 2 ^ e| = e + 53 := by
      rw [habs, hrabs, ← hsplit]
      exact Int.log_zpow (by norm_num) _
    have hmax : max (Int.log 2 |(r : ℚ) * 2 ^ e| - 52) (-1074) = e + 1 := by
      rw [hexact]
      omega
    rw [hmax, zpow_add₀ (by norm_num), zpow_one]
    rcases eq_or_eq_neg_of_abs_eq hrabs with hr' | hr'
    · refine ⟨2 ^ 52, ?_⟩
      rw [hr']
      push_cast
      field_simp
      norm_num
    · refine ⟨-2 ^ 52, ?_⟩
      rw [hr']
      push_cast
      field_simp
      norm_num

/-- What is no overflow does not become one. -/
theorem abs_rounded_lt {q : ℚ} (h : |q| < overflow) :
    |(roundEven (q / quantum q) : ℚ) * quantum q| < overflow := by
  have hpos : 0 < quantum q := by
    rw [quantum_eq]
    positivity
  have hoverflow : overflow = (2 ^ 54 - 1) * 2 ^ (970 : ℤ) := by
    have hcast : (2 : ℚ) ^ (970 : ℤ) = 2 ^ 970 := zpow_natCast 2 970
    rw [overflow, hcast]
  rw [abs_mul, abs_of_pos hpos]
  have hbound : |(roundEven (q / quantum q) : ℚ)| ≤ 2 ^ 53 := by
    have hround := abs_roundEven_le (q := q / quantum q) (m := 2 ^ 53)
      (by have hlt := abs_div_quantum_lt q; push_cast; linarith)
    rw [← Int.cast_abs]
    exact_mod_cast hround
  by_cases hmax : max (Int.log 2 |q| - 52) (-1074) ≤ 970
  · have hquantum : quantum q ≤ 2 ^ (970 : ℤ) := by
      rw [quantum_eq]
      exact zpow_le_zpow_right₀ (by norm_num) hmax
    calc |(roundEven (q / quantum q) : ℚ)| * quantum q ≤ 2 ^ 53 * 2 ^ (970 : ℤ) :=
          mul_le_mul hbound hquantum hpos.le (by positivity)
      _ < (2 ^ 54 - 1) * 2 ^ (970 : ℤ) := by
          refine mul_lt_mul_of_pos_right (by norm_num) (by positivity)
      _ = overflow := hoverflow.symm
  · have hzero : 0 < |q| := by
      rcases eq_or_lt_of_le (abs_nonneg q) with hq | hq
      · rw [← hq, Int.log_zero_right] at hmax
        omega
      · exact hq
    have hlog : Int.log 2 |q| = 1023 := by
      have hlow := Int.zpow_log_le_self (b := 2) (by norm_num) hzero
      by_contra hne
      have hge : (1024 : ℤ) ≤ Int.log 2 |q| := by omega
      have hpower : (2 : ℚ) ^ (1024 : ℤ) ≤ 2 ^ Int.log 2 |q| :=
        zpow_le_zpow_right₀ (by norm_num) hge
      have hsplit : (2 : ℚ) ^ (1024 : ℤ) = 2 ^ 54 * 2 ^ (970 : ℤ) := by
        rw [← zpow_natCast, ← zpow_add₀ (by norm_num)]
        norm_num
      have hscale : (0 : ℚ) < 2 ^ (970 : ℤ) := by positivity
      have hover : overflow < 2 ^ (1024 : ℤ) := by
        rw [hoverflow, hsplit]
        exact mul_lt_mul_of_pos_right (by norm_num) hscale
      have hcast : ((2 : ℕ) : ℚ) ^ Int.log 2 |q| = 2 ^ Int.log 2 |q| := by norm_num
      rw [hcast] at hlow
      exact absurd h (not_lt.mpr (hover.le.trans (hpower.trans hlow)))
    have hquantum : quantum q = 2 * 2 ^ (970 : ℤ) := by
      have hmaximum : max ((1023 : ℤ) - 52) (-1074) = 1 + 970 := by norm_num
      rw [quantum_eq, hlog, hmaximum, zpow_add₀ (by norm_num), zpow_one]
    have hscale : (0 : ℚ) < 2 ^ (970 : ℤ) := by positivity
    have hratio : |q / quantum q| < ((2 ^ 53 - 1 : ℤ) : ℚ) + 1 / 2 := by
      rw [abs_div, abs_of_pos hpos, div_lt_iff₀ hpos, hquantum]
      rw [hoverflow] at h
      push_cast
      generalize (2 : ℚ) ^ (970 : ℤ) = scale at h ⊢
      linarith
    have hround := abs_roundEven_le hratio
    have hcast : |(roundEven (q / quantum q) : ℚ)| ≤ 2 ^ 53 - 1 := by
      rw [← Int.cast_abs]
      exact_mod_cast hround
    have hmul : |(roundEven (q / quantum q) : ℚ)| * quantum q ≤ (2 ^ 53 - 1) * quantum q :=
      mul_le_mul_of_nonneg_right hcast hpos.le
    rw [hoverflow]
    generalize |(roundEven (q / quantum q) : ℚ)| = r at hmul ⊢
    rw [hquantum] at hmul ⊢
    generalize (2 : ℚ) ^ (970 : ℤ) = scale at hmul hscale ⊢
    linarith

/-- **Main.** What a number is rounded to is a double. -/
theorem nearest_nearest {x q : ℚ} (h : nearest x = some q) : nearest q = some q := by
  unfold nearest at h
  split at h
  · cases h
  next hfinite =>
  obtain rfl := Option.some.inj h
  have hlt := abs_rounded_lt (not_le.mp hfinite)
  rw [nearest, if_neg (not_le.mpr hlt)]
  have hround : |roundEven (x / quantum x)| ≤ 2 ^ 53 :=
    abs_roundEven_le (by have hdiv := abs_div_quantum_lt x; push_cast; linarith)
  obtain ⟨z, hz⟩ := exists_div_quantum hround (le_max_right (Int.log 2 |x| - 52) (-1074))
  rw [← quantum_eq] at hz
  have hpos : quantum (roundEven (x / quantum x) * quantum x) ≠ 0 := by
    rw [quantum_eq]
    positivity
  rw [hz, roundEven_intCast, ← hz, div_mul_cancel₀ _ hpos]

end Doubles
