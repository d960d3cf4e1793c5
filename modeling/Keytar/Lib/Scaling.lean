import Mathlib.Algebra.Order.Floor.Semifield

/-!
# Fractions of integer ranges

A number is located in one range as a fraction and the fraction is taken of another
range, where the result is cut to an integer. This keeps the order and both ends.
A fraction of a range from 0 needs integer arithmetic only.
-/
namespace Keytar.Scaling

variable {K : Type*} [Field K]

/-- How far `x` is on the way from `lo` to `hi`, with the ends in place of all that
lies outside. -/
def fraction (K : Type*) [Field K] (lo hi x : ℕ) : K :=
  if hi < x then 1 else if x < lo then 0 else ((x - lo : ℕ) : K) / ((hi - lo : ℕ) : K)

section Fraction
variable {lo hi x y : ℕ}

theorem fraction_of_le (hx : x ≤ lo) (h : lo ≤ hi) : fraction K lo hi x = 0 := by
  rw [fraction, if_neg (by omega)]
  split_ifs with hlo
  · rfl
  · rw [Nat.sub_eq_zero_of_le hx, Nat.cast_zero, zero_div]

variable [LinearOrder K] [IsStrictOrderedRing K]

theorem fraction_of_ge (hx : hi ≤ x) (h : lo < hi) : fraction K lo hi x = 1 := by
  unfold fraction
  split_ifs with hhi hlo
  · rfl
  · omega
  · obtain rfl : x = hi := by omega
    exact div_self (Nat.cast_ne_zero.mpr (by omega))

theorem fraction_nonneg : 0 ≤ fraction K lo hi x := by
  unfold fraction
  split_ifs
  · exact zero_le_one
  · exact le_rfl
  · exact div_nonneg (Nat.cast_nonneg _) (Nat.cast_nonneg _)

theorem fraction_le_one : fraction K lo hi x ≤ 1 := by
  unfold fraction
  split_ifs
  · exact le_rfl
  · exact zero_le_one
  · exact div_le_one_of_le₀ (Nat.cast_le.mpr (by omega)) (Nat.cast_nonneg _)

theorem fraction_mono (hxy : x ≤ y) : fraction K lo hi x ≤ fraction K lo hi y := by
  by_cases hy : hi < y
  · have hone : fraction K lo hi y = 1 := if_pos hy
    rw [hone]
    exact fraction_le_one
  by_cases hx : x < lo
  · have hzero : fraction K lo hi x = 0 := by rw [fraction, if_neg (by omega), if_pos hx]
    rw [hzero]
    exact fraction_nonneg
  · rw [fraction, fraction, if_neg (by omega), if_neg hx, if_neg hy, if_neg (by omega)]
    exact div_le_div_of_nonneg_right (Nat.cast_le.mpr (by omega)) (Nat.cast_nonneg _)

variable [FloorSemiring K]

/-- The fraction of the range up to `m`, by integer arithmetic. -/
theorem floor_mul_fraction (m : ℕ) : ⌊(m : K) * fraction K lo hi x⌋₊ =
    if hi < x then m else if x < lo then 0 else (x - lo) * m / (hi - lo) := by
  unfold fraction
  split_ifs
  · rw [mul_one, Nat.floor_natCast]
  · rw [mul_zero, Nat.floor_zero]
  · rw [← mul_div_assoc, mul_comm, ← Nat.cast_mul, Nat.floor_div_eq_div]

end Fraction

section Scale
variable [LinearOrder K] [FloorSemiring K] {lo hi : ℕ} {s t : K}

/-- The number at the fraction `t` of the way from `lo` to `hi`. -/
def scale (lo hi : ℕ) (t : K) : ℕ := ⌊(lo : K) + ((hi : K) - lo) * t⌋₊

variable [IsStrictOrderedRing K]

@[simp] theorem scale_zero : scale lo hi (0 : K) = lo := by
  rw [scale, mul_zero, add_zero, Nat.floor_natCast]

@[simp] theorem scale_one : scale lo hi (1 : K) = hi := by
  rw [scale, mul_one, add_sub_cancel, Nat.floor_natCast]

theorem scale_mono (h : lo ≤ hi) (hst : s ≤ t) : scale lo hi s ≤ scale lo hi t := by
  have hwidth : (0 : K) ≤ (hi : K) - lo := sub_nonneg.mpr (Nat.cast_le.mpr h)
  apply Nat.floor_mono
  exact add_le_add_right (mul_le_mul_of_nonneg_left hst hwidth) _

theorem le_scale (h : lo ≤ hi) (ht : 0 ≤ t) : lo ≤ scale lo hi t := by
  have hle := scale_mono h ht
  rwa [scale_zero] at hle

theorem scale_le (h : lo ≤ hi) (ht : t ≤ 1) : scale lo hi t ≤ hi := by
  have hle := scale_mono h ht
  rwa [scale_one] at hle

end Scale

end Keytar.Scaling
