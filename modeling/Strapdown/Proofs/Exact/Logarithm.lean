import Strapdown.Proofs.Exact.Geodesic

/-!
The rotation vector of an attitude, in exact arithmetic. It is as long as the attitude is turned,
but for less than counts where the first order stands in.
-/
namespace Strapdown

attribute [local instance] Numeric.exact
attribute [-instance] Numeric.toDiv

variable {q a b : Quaternion ℝ} {v : Vec3 ℝ}

namespace Quaternion

theorem norm_sq (q : Quaternion ℝ) : q.norm ^ 2 = q.w ^ 2 + q.vec.norm ^ 2 := by
  have hvec : q.vec.norm = √(q.x * q.x + q.y * q.y + q.z * q.z) := rfl
  have hnorm : q.norm = √(q.x * q.x + q.z * q.z + (q.y * q.y + q.w * q.w)) := rfl
  have hw := mul_self_nonneg q.w
  have hsum : 0 ≤ q.x * q.x + q.y * q.y + q.z * q.z := by
    linarith [mul_self_nonneg q.x, mul_self_nonneg q.y, mul_self_nonneg q.z]
  rw [hvec, hnorm, Real.sq_sqrt (by linarith), Real.sq_sqrt hsum]
  ring

theorem w_sq_add (h : q.norm = 1) : q.w ^ 2 + q.vec.norm ^ 2 = 1 := by
  rw [← norm_sq, h, one_pow]

theorem sqrt_one_sub_w_sq (h : q.norm = 1) : √(1 - |q.w| ^ 2) = q.vec.norm := by
  rw [sq_abs, ← w_sq_add h, add_sub_cancel_left, Real.sqrt_sq q.vec.norm_nonneg]

/-- The sine of half the angle is the length of the vector part. -/
theorem sin_arccos (h : q.norm = 1) : Real.sin (Real.arccos |q.w|) = q.vec.norm :=
  (Real.sin_arccos _).trans (sqrt_one_sub_w_sq h)

/-- Half an angle is at least its sine. -/
theorem norm_vec_le_arccos (h : q.norm = 1) : q.vec.norm ≤ Real.arccos |q.w| := by
  rw [← sin_arccos h]
  exact Real.sin_le (Real.arccos_nonneg _)

theorem shortWay_eq (q : Quaternion ℝ) : q.shortWay = if q.w < 0 then -q else q := by
  rw [shortWay]
  exact if_congr (Numeric.lt_exact _ _) rfl rfl

theorem w_shortWay (q : Quaternion ℝ) : q.shortWay.w = |q.w| := by
  rw [shortWay_eq]
  split
  · next h => exact (abs_of_neg h).symm
  · next h => exact (abs_of_nonneg (not_lt.mp h)).symm

theorem norm_vec_shortWay (q : Quaternion ℝ) : q.shortWay.vec.norm = q.vec.norm := by
  rw [shortWay_eq]
  split
  · exact q.vec.norm_neg_vec
  · rfl

theorem log_eq (h : q.norm = 1) :
    q.log = q.shortWay.vec.scale (if q.vec.norm < 1 / 10 ^ 10 then 2
      else 2 * Complex.arg ⟨|q.w|, q.vec.norm⟩ / q.vec.norm) := by
  rw [log, normalize_of_norm_eq_one h]
  simp only [norm_vec_shortWay, w_shortWay, Numeric.lt_exact, Numeric.negligible_exact]
  split <;> rfl

/-- On the circle the angle is that of the cosine. -/
theorem arg_eq_arccos (h : q.norm = 1) :
    Complex.arg ⟨|q.w|, q.vec.norm⟩ = Real.arccos |q.w| := by
  have hnormSq : Complex.normSq ⟨|q.w|, q.vec.norm⟩ = 1 := by
    rw [Complex.normSq_mk, abs_mul_abs_self, ← sq, ← sq, w_sq_add h]
  have hone : ‖(⟨|q.w|, q.vec.norm⟩ : ℂ)‖ = 1 := by
    rw [Complex.norm_def, hnormSq, Real.sqrt_one]
  have hne : (⟨|q.w|, q.vec.norm⟩ : ℂ) ≠ 0 := by
    intro hz
    rw [hz, norm_zero] at hone
    exact zero_ne_one hone
  rw [Complex.arg_of_im_nonneg_of_ne_zero q.vec.norm_nonneg hne, hone, div_one]

theorem norm_log_of_le (h : q.norm = 1) (hs : 1 / 10 ^ 10 ≤ q.vec.norm) :
    q.log.norm = 2 * Real.arccos |q.w| := by
  have hpos : 0 < q.vec.norm := lt_of_lt_of_le (by norm_num) hs
  have harc := Real.arccos_nonneg |q.w|
  rw [log_eq h, if_neg (not_lt.mpr hs), Vec3.norm_scale, norm_vec_shortWay, arg_eq_arccos h,
    abs_of_nonneg (by positivity), div_mul_cancel₀ _ hpos.ne']

theorem norm_log_of_lt (h : q.norm = 1) (hs : q.vec.norm < 1 / 10 ^ 10) :
    q.log.norm = 2 * q.vec.norm := by
  rw [log_eq h, if_pos hs, Vec3.norm_scale, norm_vec_shortWay, abs_two]

/-- A half angle is at least its sine, and its tangent is hardly more. -/
theorem arccos_near (h : q.norm = 1) (hs : q.vec.norm ≤ 1 / 2) :
    q.vec.norm ≤ Real.arccos |q.w| ∧
      Real.arccos |q.w| ≤ q.vec.norm + 2 * q.vec.norm ^ 2 := by
  refine ⟨norm_vec_le_arccos h, ?_⟩
  have hsq := w_sq_add h
  have hnn := q.vec.norm_nonneg
  have hroot := sqrt_one_sub_w_sq h
  generalize q.vec.norm = s at *
  have hw : 1 - s ≤ |q.w| := abs_le_of_sq_le_sq' (by rw [sq_abs]; nlinarith) (abs_nonneg _) |>.2
  have hpos : 0 < |q.w| := by linarith
  have htan := Real.le_tan (Real.arccos_nonneg |q.w|) (Real.arccos_lt_pi_div_two.mpr hpos)
  rw [Real.tan_arccos, hroot] at htan
  refine htan.trans ?_
  rw [div_le_iff₀ hpos]
  nlinarith [mul_le_mul_of_nonneg_left hw (by positivity : 0 ≤ s + 2 * s ^ 2)]

theorem norm_remainder (ha : a.norm = 1) (hb : b.norm = 1) : (remainder a b).norm = 1 := by
  rw [remainder, norm_mul, norm_eq a.conjugate, hamilton_conjugate, norm_star, ← norm_eq, ha, hb,
    one_mul]

theorem w_remainder (a b : Quaternion ℝ) : (remainder a b).w = a.dot b := by
  rw [dot_eq, Hamilton.inner_eq, ← re_hamilton, remainder, hamilton_mul, hamilton_conjugate]
  simp

/-- The angle between attitudes is that of what remains to be turned. -/
theorem angleTo_eq_remainder (ha : a.norm = 1) (hb : b.norm = 1) :
    a.angleTo b = 2 * Real.arccos |(remainder a b).w| := by
  rw [angleTo_eq_arccos ha hb, w_remainder]

/-- The length of the rotation vector between attitudes is the angle between them, but for less than
counts. -/
theorem norm_errorTo (ha : a.norm = 1) (hb : b.norm = 1) :
    (a.errorTo b).norm ≤ a.angleTo b ∧ a.angleTo b ≤ (a.errorTo b).norm + 4 / 10 ^ 20 := by
  have hq := norm_remainder ha hb
  rw [errorTo, angleTo_eq_remainder ha hb]
  generalize remainder a b = q at hq ⊢
  by_cases hs : q.vec.norm < 1 / 10 ^ 10
  · obtain ⟨hlow, hhigh⟩ := arccos_near hq (hs.le.trans (by norm_num))
    have hsq : q.vec.norm ^ 2 ≤ 1 / 10 ^ 20 := by
      have := q.vec.norm_nonneg
      nlinarith
    rw [norm_log_of_lt hq hs]
    constructor <;> linarith
  · rw [norm_log_of_le hq (not_lt.mp hs)]
    refine ⟨le_rfl, ?_⟩
    norm_num

theorem remainder_self (h : a.norm = 1) : remainder a a = identity := by
  apply hamilton_injective
  rw [remainder, hamilton_mul, hamilton_conjugate, Quaternion.star_mul_self,
    Quaternion.normSq_eq_norm_mul_self, ← norm_eq, h, hamilton_identity, mul_one,
    Quaternion.coe_one]

theorem errorTo_self (h : a.norm = 1) : (a.errorTo a).norm = 0 := by
  have hvec : (identity : Quaternion ℝ).vec.norm = 0 := by
    have hsq := (identity : Quaternion ℝ).norm_sq
    rw [norm_identity] at hsq
    change 1 ^ 2 = (1 : ℝ) ^ 2 + _ at hsq
    exact pow_eq_zero_iff two_ne_zero |>.mp (by linarith)
  rw [errorTo, remainder_self h, norm_log_of_lt norm_identity (by rw [hvec]; norm_num), hvec,
    mul_zero]

end Quaternion
end Strapdown
