import Mathlib
import Strapdown.Proofs.Exact.Exponential

/-!
Rotations about one axis, in exact arithmetic. They are exponentials along the direction of the
axis, and so their angles add up, with their signs and beyond whole turns.
-/
namespace Strapdown

attribute [local instance] Numeric.exact
attribute [-instance] Numeric.toDiv

open Real (cos sin)

variable {axis v : Vec3 ℝ} {k s : ℝ}

namespace Vec3

theorem le_of_norm_eq_one (h : v.norm = 1) : 1 / 10 ^ 10 ≤ v.norm := by
  rw [h]
  norm_num

theorem hamilton_divide (v : Vec3 ℝ) (s : ℝ) : (v.divide s).hamilton = s⁻¹ • v.hamilton := by
  ext <;> simp [divide, map, div_eq_inv_mul]

/-- The direction of a vector, as a quaternion without a scalar part. -/
noncomputable def direction (v : Vec3 ℝ) : Hamilton := v.norm⁻¹ • v.hamilton

theorem re_direction (v : Vec3 ℝ) : v.direction.re = 0 := by simp [direction]

theorem norm_direction (h : 0 < axis.norm) : ‖axis.direction‖ = 1 := by
  rw [direction, norm_smul, norm_inv, Real.norm_eq_abs, abs_of_pos h, ← norm_eq,
    inv_mul_cancel₀ h.ne']

theorem direction_neg (v : Vec3 ℝ) : (-v).direction = -v.direction := by
  rw [direction, direction, norm_neg_vec, hamilton_neg, smul_neg]

/-- Stretching a vector keeps its direction. -/
theorem direction_scale (hk : 0 < k) (v : Vec3 ℝ) : (v.scale k).direction = v.direction := by
  rw [direction, direction, norm_scale, abs_of_pos hk, hamilton_scale, smul_smul, mul_inv_rev,
    inv_mul_cancel_right₀ hk.ne']

end Vec3

/-- Where nothing but a direction is left of a quaternion, its multiples turn about it. -/
theorem Hamilton.exp_smul {u : Hamilton} (hre : u.re = 0) (hnorm : ‖u‖ = 1) (x : ℝ) :
    NormedSpace.exp (x • u) = (cos x : Hamilton) + sin x • u := by
  have hsmul : (x • u).re = 0 := by simp [hre]
  rw [Quaternion.exp_of_re_eq_zero _ hsmul, norm_smul, hnorm, mul_one, Real.norm_eq_abs,
    Real.cos_abs, smul_smul]
  -- The exponential works from the unsigned angle, and leaves the sign to the multiple.
  have hodd : sin |x| / |x| = sin x / x := by
    rcases abs_cases x with ⟨habs, -⟩ | ⟨habs, -⟩
    · rw [habs]
    · rw [habs, Real.sin_neg, neg_div_neg_eq]
  rw [hodd]
  congr 2
  rcases eq_or_ne x 0 with rfl | hx
  · simp
  · exact div_mul_cancel₀ _ hx

namespace Quaternion

theorem ofAxisAngle_of_le (h : 1 / 10 ^ 10 ≤ axis.norm) (angle : ℝ) : ofAxisAngle axis angle =
    ofParts (cos (angle / 2)) ((axis.divide axis.norm).scale (sin (angle / 2))) := by
  have hlength : axis.length = axis.norm := rfl
  have hd : degenerate axis.norm = false := by
    rw [degenerate_eq]
    exact decide_eq_false (not_lt.mpr h)
  have hhalf : angle * Numeric.half = angle / 2 := by
    change angle * (1 / 2) = _
    ring
  rw [ofAxisAngle, hlength]
  simp only [hd, Bool.false_eq_true, if_false, hhalf]
  rfl

theorem ofAxisAngle_eq (h : axis.norm = 1) (angle : ℝ) :
    ofAxisAngle axis angle = ofParts (cos (angle / 2)) (axis.scale (sin (angle / 2))) := by
  have hunit : axis.divide 1 = axis := by
    ext <;> exact div_one _
  rw [ofAxisAngle_of_le (Vec3.le_of_norm_eq_one h), h, hunit]

theorem hamilton_ofAxisAngle (h : 1 / 10 ^ 10 ≤ axis.norm) (angle : ℝ) :
    (ofAxisAngle axis angle).hamilton = NormedSpace.exp ((angle / 2) • axis.direction) := by
  have hpos : 0 < axis.norm := lt_of_lt_of_le (by norm_num) h
  rw [ofAxisAngle_of_le h, hamilton_ofParts, Vec3.hamilton_scale, Vec3.hamilton_divide,
    Hamilton.exp_smul axis.re_direction (Vec3.norm_direction hpos)]
  rfl

theorem norm_ofAxisAngle (h : 1 / 10 ^ 10 ≤ axis.norm) (angle : ℝ) :
    (ofAxisAngle axis angle).norm = 1 := by
  rw [norm_eq, hamilton_ofAxisAngle h, Hamilton.norm_exp_of_re (by simp [axis.re_direction])]

theorem ofAxisAngle_mul (h : 1 / 10 ^ 10 ≤ axis.norm) (s t : ℝ) :
    ofAxisAngle axis s * ofAxisAngle axis t = ofAxisAngle axis (s + t) := by
  let +nondep : NormedAlgebra ℚ Hamilton := .restrictScalars ℚ ℝ Hamilton
  have hcommute : Commute ((s / 2) • axis.direction) ((t / 2) • axis.direction) :=
    ((Commute.refl _).smul_left _).smul_right _
  apply hamilton_injective
  rw [hamilton_mul, hamilton_ofAxisAngle h, hamilton_ofAxisAngle h, hamilton_ofAxisAngle h,
    ← NormedSpace.exp_add_of_commute hcommute, ← add_smul, add_div]

theorem ofAxisAngle_neg (h : 1 / 10 ^ 10 ≤ axis.norm) (s : ℝ) :
    ofAxisAngle axis (-s) = (ofAxisAngle axis s).conjugate := by
  apply hamilton_injective
  rw [hamilton_conjugate, hamilton_ofAxisAngle h, hamilton_ofAxisAngle h,
    Hamilton.star_exp_of_re (by simp [axis.re_direction]), neg_div, neg_smul]

theorem ofAxisAngle_neg_axis (h : 1 / 10 ^ 10 ≤ axis.norm) (s : ℝ) :
    ofAxisAngle (-axis) s = ofAxisAngle axis (-s) := by
  apply hamilton_injective
  rw [hamilton_ofAxisAngle (by rwa [Vec3.norm_neg_vec]), hamilton_ofAxisAngle h,
    Vec3.direction_neg, neg_div, neg_smul, smul_neg]

theorem ofAxisAngle_scale (h : 1 / 10 ^ 10 ≤ axis.norm) (hk : 0 < k)
    (hscaled : 1 / 10 ^ 10 ≤ (axis.scale k).norm) (s : ℝ) :
    ofAxisAngle (axis.scale k) s = ofAxisAngle axis s := by
  apply hamilton_injective
  rw [hamilton_ofAxisAngle h, hamilton_ofAxisAngle hscaled, Vec3.direction_scale hk]

/-- A rotation vector along an axis is the rotation about it, if its length counts. -/
theorem ofAxisAngle_eq_exp (h : 1 / 10 ^ 10 ≤ axis.norm) (hs : s = 0 ∨ 1 / 10 ^ 10 ≤ |s|) :
    ofAxisAngle axis s = exp ((axis.scale s).divide axis.norm) := by
  have hpos : 0 < axis.norm := lt_of_lt_of_le (by norm_num) h
  have halong : ((axis.scale s).divide axis.norm).hamilton = s • axis.direction := by
    rw [Vec3.hamilton_divide, Vec3.hamilton_scale, smul_comm, Vec3.direction]
  have hcounts : ((axis.scale s).divide axis.norm).Counts := by
    rcases hs with rfl | hs
    · left
      rw [← Vec3.hamilton_eq_zero, halong, zero_smul]
    · right
      rw [Vec3.norm_eq, halong, norm_smul, Vec3.norm_direction hpos, mul_one]
      exact hs
  apply hamilton_injective
  rw [hamilton_ofAxisAngle h, hamilton_exp, exponent_of_counts hcounts, halong, smul_smul]
  congr 2
  ring

/-- Rotations about one axis are a group with one parameter: they follow each other by adding their
angles, and going back is a turn the other way, or about the opposite axis. Only the direction of
the axis matters, and each turn is that by the rotation vector along the axis. -/
theorem one_parameter_subgroups (axis : Vec3 ℝ) (h : Numeric.negligible ≤ axis.norm) :
    (∀ s t, ofAxisAngle axis s * ofAxisAngle axis t = ofAxisAngle axis (s + t)) ∧
    (∀ s, ofAxisAngle axis (-s) = (ofAxisAngle axis s).conjugate ∧
      (ofAxisAngle axis s).conjugate = ofAxisAngle (-axis) s) ∧
    (∀ k s, 0 < k → Numeric.negligible ≤ (axis.scale k).norm →
      ofAxisAngle (axis.scale k) s = ofAxisAngle axis s) ∧
    ∀ s, s = 0 ∨ Numeric.negligible ≤ |s| →
      ofAxisAngle axis s = exp ((axis.scale s).divide axis.norm) := by
  refine ⟨ofAxisAngle_mul h, ?_, ?_, ?_⟩
  · intro s
    exact ⟨ofAxisAngle_neg h s, ((ofAxisAngle_neg_axis h s).trans (ofAxisAngle_neg h s)).symm⟩
  · intro k s hk hscaled
    exact ofAxisAngle_scale h hk hscaled s
  · intro s hs
    exact ofAxisAngle_eq_exp h hs

theorem slanted_axis_adds_up :
    Numeric.negligible ≤ (⟨0, 3, -4⟩ : Vec3 ℝ).norm ∧
    ofAxisAngle ⟨0, 3, -4⟩ (-7) * ofAxisAngle ⟨0, 3, -4⟩ 2 =
      ofAxisAngle (⟨0, 3, -4⟩ : Vec3 ℝ) (-5) ∧
    (ofAxisAngle ⟨0, 3, -4⟩ 7).conjugate = ofAxisAngle (-(⟨0, 3, -4⟩ : Vec3 ℝ)) 7 ∧
    ofAxisAngle ⟨0, 3 / 2, -2⟩ 7 = ofAxisAngle (⟨0, 3, -4⟩ : Vec3 ℝ) 7 ∧
    ofAxisAngle ⟨0, 3, -4⟩ (-10) = exp (⟨0, -6, 8⟩ : Vec3 ℝ) := by
  have hnorm : (⟨0, 3, -4⟩ : Vec3 ℝ).norm = 5 := by
    change √(0 * 0 + 3 * 3 + -4 * -4) = 5
    rw [show (0 * 0 + 3 * 3 + -4 * -4 : ℝ) = 5 ^ 2 by norm_num, Real.sqrt_sq (by norm_num)]
  have hcounts : Numeric.negligible ≤ (⟨0, 3, -4⟩ : Vec3 ℝ).norm := by
    rw [hnorm, Numeric.negligible_exact]
    norm_num
  obtain ⟨hadd, hback, hdirection, hexp⟩ := one_parameter_subgroups ⟨0, 3, -4⟩ hcounts
  have hscaled : (⟨0, 3, -4⟩ : Vec3 ℝ).scale (1 / 2) = ⟨0, 3 / 2, -2⟩ := by
    norm_num [Vec3.scale, Vec3.map]
  have hvector : ((⟨0, 3, -4⟩ : Vec3 ℝ).scale (-10)).divide 5 = ⟨0, -6, 8⟩ := by
    norm_num [Vec3.scale, Vec3.divide, Vec3.map]
  have hhalf := hdirection (1 / 2) 7 (by norm_num) (by
    rw [Vec3.norm_scale, hnorm, Numeric.negligible_exact]
    norm_num)
  have hturn := hexp (-10) (.inr (by
    rw [Numeric.negligible_exact]
    norm_num))
  rw [hscaled] at hhalf
  rw [hnorm, hvector] at hturn
  exact ⟨hcounts, (hadd (-7) 2).trans (by norm_num), (hback 7).2, hhalf, hturn⟩

end Quaternion
end Strapdown
