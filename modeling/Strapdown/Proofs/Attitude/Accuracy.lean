import Strapdown.Proofs.Binary.Arithmetic

/-! Relative errors, counted in units of `2 ^ -24`, and the errors of sums of squares. -/
namespace Strapdown.Binary

variable {j k c d x y z r : ℚ} {a b : Float32} {xs : List Float32}

/-- `r` is off `x` by a relative error of at most `k` units. -/
def Within (k x r : ℚ) : Prop := |r - x| ≤ k / 2 ^ 24 * x

theorem within_mono (h : Within j x r) (hx : 0 ≤ x) (hjk : j ≤ k) : Within k x r :=
  le_trans h (mul_le_mul_of_nonneg_right (by gcongr) hx)

theorem within_trans (hy : Within j x y) (hz : Within k y z) (hx : 0 ≤ x) (hj : j ≤ 1000)
    (hk : 0 ≤ k) (hk' : k ≤ 1000) : Within (j + k + 1) x z := by
  unfold Within at *
  have hyx : y ≤ (1 + j / 2 ^ 24) * x := by linarith [(abs_le.mp hy).2]
  have hky : k / 2 ^ 24 * y ≤ k / 2 ^ 24 * ((1 + j / 2 ^ 24) * x) :=
    mul_le_mul_of_nonneg_left hyx (by positivity)
  have hjk : j * k / 2 ^ 24 ≤ 1 := by
    have : j * k ≤ 1000 * 1000 := mul_le_mul hj hk' hk (by norm_num)
    linarith
  have hsmall : j * k / 2 ^ 24 * (x / 2 ^ 24) ≤ 1 * (x / 2 ^ 24) :=
    mul_le_mul_of_nonneg_right hjk (by positivity)
  calc |z - x| ≤ |z - y| + |y - x| := abs_sub_le z y x
    _ ≤ k / 2 ^ 24 * ((1 + j / 2 ^ 24) * x) + j / 2 ^ 24 * x := by linarith
    _ = (j + k) / 2 ^ 24 * x + j * k / 2 ^ 24 * (x / 2 ^ 24) := by ring
    _ ≤ (j + k + 1) / 2 ^ 24 * x := by linarith

theorem within_sq (h : Within k x r) (hx : 0 ≤ x) (hk : 0 ≤ k) (hk' : k ≤ 1000) :
    Within (2 * k + 1) (x ^ 2) (r ^ 2) := by
  unfold Within at *
  have hsum : |r + x| ≤ 2 * x + k / 2 ^ 24 * x := by
    calc |r + x| = |(r - x) + 2 * x| := by ring_nf
      _ ≤ |r - x| + |2 * x| := abs_add_le _ _
      _ ≤ 2 * x + k / 2 ^ 24 * x := by
        rw [abs_of_nonneg (by positivity : (0 : ℚ) ≤ 2 * x)]
        linarith
  have hkk : k * k / 2 ^ 24 ≤ 1 := by
    have : k * k ≤ 1000 * 1000 := mul_le_mul hk' hk' hk (by norm_num)
    linarith
  have hsmall : k * k / 2 ^ 24 * (x ^ 2 / 2 ^ 24) ≤ 1 * (x ^ 2 / 2 ^ 24) :=
    mul_le_mul_of_nonneg_right hkk (by positivity)
  calc |r ^ 2 - x ^ 2| = |r - x| * |r + x| := by rw [← abs_mul]; ring_nf
    _ ≤ k / 2 ^ 24 * x * (2 * x + k / 2 ^ 24 * x) :=
      mul_le_mul h hsum (abs_nonneg _) (by positivity)
    _ = 2 * k / 2 ^ 24 * x ^ 2 + k * k / 2 ^ 24 * (x ^ 2 / 2 ^ 24) := by ring
    _ ≤ (2 * k + 1) / 2 ^ 24 * x ^ 2 := by linarith

theorem within_mul_right (h : Within k x r) (hc : 0 ≤ c) : Within k (x * c) (r * c) := by
  unfold Within at *
  rw [← sub_mul, abs_mul, abs_of_nonneg hc, ← mul_assoc]
  exact mul_le_mul_of_nonneg_right h hc

/-- What is near `x` is `x` over it away from one. -/
theorem within_one_div (h : Within k x r) (hx : 0 < x) (hk : 0 ≤ k) (hk' : k ≤ 1000) :
    Within (k + 1) 1 (x / r) := by
  unfold Within at *
  have hr : (1 - k / 2 ^ 24) * x ≤ r := by linarith [(abs_le.mp h).1]
  have hpos : 0 < r := lt_of_lt_of_le (by nlinarith) hr
  have hkk : k * (k + 1) / 2 ^ 24 ≤ 1 := by
    have : k * (k + 1) ≤ 1000 * 1001 := mul_le_mul hk' (by linarith) (by linarith) (by norm_num)
    linarith
  rw [div_sub_one hpos.ne', abs_div, abs_of_pos hpos, abs_sub_comm, div_le_iff₀ hpos, mul_one]
  have hscaled := mul_le_mul_of_nonneg_left hr (show 0 ≤ (k + 1) / 2 ^ 24 by positivity)
  have hsmall : k * (k + 1) / 2 ^ 24 * (x / 2 ^ 24) ≤ 1 * (x / 2 ^ 24) :=
    mul_le_mul_of_nonneg_right hkk (by positivity)
  calc |r - x| ≤ k / 2 ^ 24 * x := h
    _ ≤ (k + 1) / 2 ^ 24 * x - k * (k + 1) / 2 ^ 24 * (x / 2 ^ 24) := by linarith
    _ = (k + 1) / 2 ^ 24 * ((1 - k / 2 ^ 24) * x) := by ring
    _ ≤ (k + 1) / 2 ^ 24 * r := hscaled

/-- Underflow does not count for numbers that are not tiny. -/
theorem within_of_near (h : Near x r) (hx : 1 / 2 ^ 100 ≤ x) : Within 2 x r := by
  have hx0 : 0 ≤ x := le_trans (by positivity) hx
  unfold Near at h
  unfold Within
  rw [abs_of_nonneg hx0] at h
  linarith

theorem sq_near (h : Near x r) (hx : |x| ≤ 2) :
    |r ^ 2 - x ^ 2| ≤ 3 / 2 ^ 24 * x ^ 2 + 5 / 2 ^ 150 := by
  unfold Near at h
  have hnn := abs_nonneg x
  have hsq : |x| * |x| = x ^ 2 := by rw [abs_mul_abs_self, sq]
  have hsum : |r + x| ≤ 2 * |x| + (|x| / 2 ^ 24 + 1 / 2 ^ 150) := by
    calc |r + x| = |(r - x) + 2 * x| := by ring_nf
      _ ≤ |r - x| + |2 * x| := abs_add_le _ _
      _ ≤ 2 * |x| + (|x| / 2 ^ 24 + 1 / 2 ^ 150) := by
        rw [abs_mul, abs_two]
        linarith
  calc |r ^ 2 - x ^ 2| = |r - x| * |r + x| := by rw [← abs_mul]; ring_nf
    _ ≤ (|x| / 2 ^ 24 + 1 / 2 ^ 150) * (2 * |x| + (|x| / 2 ^ 24 + 1 / 2 ^ 150)) :=
      mul_le_mul h hsum (abs_nonneg _) (by positivity)
    _ = (2 / 2 ^ 24 + 1 / 2 ^ 48) * (|x| * |x|) +
        (2 + 2 / 2 ^ 24) / 2 ^ 150 * |x| + 1 / 2 ^ 150 * (1 / 2 ^ 150) := by ring
    _ ≤ 3 / 2 ^ 24 * x ^ 2 + 5 / 2 ^ 150 := by
      rw [hsq]
      linarith [sq_nonneg x]

/-- The square of a root is the number again, up to the error of one rounding. -/
theorem within_sqrt (h : a.sqrt.isFinite = true) : Within 3 (toRat a) (toRat a.sqrt ^ 2) := by
  have ha : (0 : ℝ) ≤ toRat a := by exact_mod_cast toRat_nonneg_of_sqrt h
  have hn := toRat_sqrt h
  have hroot := Real.sqrt_nonneg (toRat a : ℝ)
  have hsum : |(toRat a.sqrt : ℝ) + √(toRat a : ℝ)| ≤ (2 + 1 / 2 ^ 24) * √(toRat a : ℝ) := by
    calc |(toRat a.sqrt : ℝ) + √(toRat a : ℝ)|
        = |(toRat a.sqrt - √(toRat a : ℝ)) + 2 * √(toRat a : ℝ)| := by ring_nf
      _ ≤ |toRat a.sqrt - √(toRat a : ℝ)| + |2 * √(toRat a : ℝ)| := abs_add_le _ _
      _ ≤ (2 + 1 / 2 ^ 24) * √(toRat a : ℝ) := by
        rw [abs_of_nonneg (by positivity : 0 ≤ 2 * √(toRat a : ℝ))]
        linarith
  have hreal : |(toRat a.sqrt : ℝ) ^ 2 - toRat a| ≤ 3 / 2 ^ 24 * toRat a := by
    calc |(toRat a.sqrt : ℝ) ^ 2 - toRat a|
        = |(toRat a.sqrt : ℝ) - √(toRat a : ℝ)| * |(toRat a.sqrt : ℝ) + √(toRat a : ℝ)| := by
          rw [← abs_mul]
          nth_rewrite 1 [← Real.sq_sqrt ha]
          ring_nf
      _ ≤ √(toRat a : ℝ) / 2 ^ 24 * ((2 + 1 / 2 ^ 24) * √(toRat a : ℝ)) :=
          mul_le_mul hn hsum (abs_nonneg _) (by positivity)
      _ = (2 + 1 / 2 ^ 24) / 2 ^ 24 * toRat a := by
          linear_combination (2 + 1 / 2 ^ 24) / 2 ^ 24 * Real.mul_self_sqrt ha
      _ ≤ 3 / 2 ^ 24 * toRat a := mul_le_mul_of_nonneg_right (by norm_num) ha
  unfold Within
  rw [← Rat.cast_le (K := ℝ)]
  push_cast
  exact hreal

end Strapdown.Binary
