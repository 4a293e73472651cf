import Mathlib
import Strapdown.Proofs.Exact.EulerAngles
import Strapdown.Proofs.Exact.Inverse

/-!
How far one attitude is from another, in exact arithmetic. The angle, the error to first order and
the rotation vector come from formulas of their own; they agree on how far it is, in which
direction, and on the shorter of the two ways round.
-/
namespace Strapdown

attribute [local instance] Numeric.exactRing Numeric.exact
attribute [-instance] Numeric.toDiv

open Real (cos sin)
open scoped Real

variable {q a b : Quaternion ℝ} {axis : Vec3 ℝ} {x angle : ℝ}

/-- A vector without length has every direction. -/
theorem Vec3.exists_direction (v : Vec3 ℝ) :
    ∃ axis : Vec3 ℝ, axis.norm = 1 ∧ axis.scale v.norm = v := by
  by_cases hv : v = Vec3.zero
  · refine ⟨Axis.roll.unit, Axis.roll.norm_unit, ?_⟩
    rw [hv, norm_zero_vec, scale_zero]
  · have hpos := norm_pos_of_ne hv
    refine ⟨v.scale (1 / v.norm), ?_, ?_⟩
    · rw [norm_scale, abs_of_pos (by positivity), one_div_mul_cancel hpos.ne']
    · rw [scale_scale, one_div_mul_cancel hpos.ne', scale_one]

namespace Quaternion

/-- The angle of a unit quaternion about its axis, from none to a whole turn. -/
noncomputable def rotationAngle (q : Quaternion ℝ) : ℝ := Real.arccos q.w + Real.arccos q.w

theorem rotationAngle_eq (q : Quaternion ℝ) : q.rotationAngle = 2 * Real.arccos q.w :=
  (two_mul _).symm

theorem half_rotationAngle (q : Quaternion ℝ) : q.rotationAngle / 2 = Real.arccos q.w :=
  add_self_div_two _

/-- Every unit quaternion is the rotation by its angle about some axis. -/
theorem exists_ofAxisAngle (h : q.norm = 1) :
    ∃ axis : Vec3 ℝ, axis.norm = 1 ∧ ofAxisAngle axis q.rotationAngle = q := by
  obtain ⟨axis, haxis, hvec⟩ := q.vec.exists_direction
  obtain ⟨hlow, hhigh⟩ := abs_le.mp (abs_w_le_one h)
  have hcos : cos (Real.arccos q.w) = q.w := Real.cos_arccos hlow hhigh
  have hsin : sin (Real.arccos q.w) = q.vec.norm := by
    rw [Real.sin_arccos, ← sq_abs, sqrt_one_sub_w_sq h]
  refine ⟨axis, haxis, ?_⟩
  rw [ofAxisAngle_eq haxis, half_rotationAngle, hcos, hsin, hvec]
  rfl

theorem arccos_cos_le (hx : 0 ≤ x) : Real.arccos (cos x) ≤ x := by
  by_cases hle : x ≤ π
  · exact (Real.arccos_cos hx hle).le
  · exact (Real.arccos_le_pi _).trans (not_le.mp hle).le

/-- Turns beyond a whole one have gone further than they have to. -/
theorem rotationAngle_ofAxisAngle_le (h : axis.norm = 1) (hangle : 0 ≤ angle) :
    (ofAxisAngle axis angle).rotationAngle ≤ angle := by
  have hw : (ofAxisAngle axis angle).w = cos (angle / 2) := by
    rw [ofAxisAngle_eq h]
    rfl
  have hle : Real.arccos (cos (angle / 2)) ≤ angle / 2 := arccos_cos_le (by positivity)
  rw [rotationAngle_eq, hw]
  linarith

/-- The angle between attitudes is the smaller one of what remains and of its negative. -/
theorem angleTo_eq_min_rotationAngle (ha : a.norm = 1) (hb : b.norm = 1) :
    a.angleTo b = min (remainder a b).rotationAngle (-remainder a b).rotationAngle := by
  rw [angleTo_eq_remainder ha hb, abs_eq_max_neg, Real.antitone_arccos.map_max,
    mul_min_of_nonneg _ _ zero_le_two, rotationAngle_eq, rotationAngle_eq]
  rfl

/-- No turn about any axis comes out at what remains, or at its negative, with a smaller angle. -/
theorem isLeast_angleTo (ha : a.norm = 1) (hb : b.norm = 1) :
    IsLeast {angle | 0 ≤ angle ∧ ∃ axis : Vec3 ℝ, axis.norm = 1 ∧
      (ofAxisAngle axis angle = remainder a b ∨ ofAxisAngle axis angle = -remainder a b)}
      (a.angleTo b) := by
  have hr := norm_remainder ha hb
  rw [angleTo_eq_min_rotationAngle ha hb]
  generalize remainder a b = r at hr ⊢
  have hnn (q : Quaternion ℝ) : 0 ≤ q.rotationAngle :=
    add_nonneg (Real.arccos_nonneg _) (Real.arccos_nonneg _)
  constructor
  · rcases min_choice r.rotationAngle (-r).rotationAngle with hmin | hmin <;> rw [hmin]
    · obtain ⟨axis, haxis, hturn⟩ := exists_ofAxisAngle hr
      exact ⟨hnn r, axis, haxis, .inl hturn⟩
    · obtain ⟨axis, haxis, hturn⟩ := exists_ofAxisAngle ((norm_neg_eq r).trans hr)
      exact ⟨hnn (-r), axis, haxis, .inr hturn⟩
  · rintro angle ⟨hangle, axis, haxis, hturn | hturn⟩
    · rw [← hturn]
      exact (min_le_left _ _).trans (rotationAngle_ofAxisAngle_le haxis hangle)
    · rw [← hturn]
      exact (min_le_right _ _).trans (rotationAngle_ofAxisAngle_le haxis hangle)

theorem sin_half_angleTo (ha : a.norm = 1) (hb : b.norm = 1) :
    sin (a.angleTo b / 2) = (remainder a b).vec.norm := by
  rw [angleTo_eq_remainder ha hb, mul_div_cancel_left₀ _ two_ne_zero,
    sin_arccos (norm_remainder ha hb)]

theorem smallErrorTo_eq (a b : Quaternion ℝ) :
    a.smallErrorTo b = (remainder a b).shortWay.vec.scale 2 := by
  rw [smallErrorTo]
  exact if_pos rfl

theorem norm_smallErrorTo (a b : Quaternion ℝ) :
    (a.smallErrorTo b).norm = 2 * (remainder a b).vec.norm := by
  rw [smallErrorTo_eq, Vec3.norm_scale, norm_vec_shortWay, abs_two]

/-- Both errors are along the vector part, and the half angle is at least its sine. -/
theorem exists_log_eq_scale (h : q.norm = 1) :
    ∃ k, 1 ≤ k ∧ q.log = (q.shortWay.vec.scale 2).scale k := by
  by_cases hs : q.vec.norm < 1 / 10 ^ 10
  · refine ⟨1, le_rfl, ?_⟩
    rw [log_eq h, if_pos hs, Vec3.scale_one]
  · have hpos : 0 < q.vec.norm := lt_of_lt_of_le (by norm_num) (not_lt.mp hs)
    refine ⟨Real.arccos |q.w| / q.vec.norm, (one_le_div hpos).mpr (norm_vec_le_arccos h), ?_⟩
    rw [log_eq h, if_neg hs, arg_eq_arccos h, Vec3.scale_scale, mul_div_assoc]

/-- The first order falls short of the angle, unless there is nothing to turn. -/
theorem norm_log_eq_iff (h : q.norm = 1) :
    q.log.norm = 2 * Real.arccos |q.w| ↔ q.vec.norm = 0 ∨ Numeric.negligible ≤ q.vec.norm := by
  by_cases hs : q.vec.norm < 1 / 10 ^ 10
  · obtain ⟨hlow, hhigh⟩ := arccos_near h (hs.le.trans (by norm_num))
    rw [norm_log_of_lt h hs]
    rcases q.vec.norm_nonneg.eq_or_lt with hzero | hpos
    · refine iff_of_true ?_ (.inl hzero.symm)
      rw [← hzero] at hlow hhigh ⊢
      linarith
    · have hlt := Real.sin_lt (hpos.trans_le hlow)
      rw [sin_arccos h] at hlt
      refine iff_of_false (by linarith) ?_
      rintro (hzero | hle)
      · exact hpos.ne' hzero
      · exact not_lt.mpr hle hs
  · have hle := not_lt.mp hs
    exact iff_of_true (norm_log_of_le h hle) (.inr hle)

/-- A sine is its angle but for a cube. -/
theorem norm_log_near (h : q.norm = 1) :
    |q.log.norm - (2 * Real.arccos |q.w|)| ≤ 1 / 10 ^ 20 := by
  rcases lt_or_ge q.vec.norm (1 / 10 ^ 10) with hs | hs
  · obtain ⟨hlow, hhigh⟩ := arccos_near h (hs.le.trans (by norm_num))
    have hsin := sin_arccos h
    have hnn := q.vec.norm_nonneg
    rw [norm_log_of_lt h hs]
    generalize Real.arccos |q.w| = x at *
    generalize q.vec.norm = s at *
    have hx : x ≤ 2 / 10 ^ 10 := by nlinarith
    have hcube : x - x ^ 3 / 6 ≤ s := by
      rcases (hnn.trans hlow).eq_or_lt with hzero | hpos
      · rw [← hzero]
        simpa using hnn
      · rw [← hsin]
        exact (Real.sin_gt_sub_cube hpos).le
    have hsmall : x ^ 3 ≤ (2 / 10 ^ 10) ^ 3 := pow_le_pow_left₀ (hnn.trans hlow) hx 3
    rw [abs_le]
    constructor <;> linarith
  · rw [norm_log_of_le h hs, sub_self, abs_zero]
    positivity

/-- The angle, the first order and the rotation vector measure one error. The first order is twice
the sine of half the angle long; the rotation vector goes on in its direction to the whole angle,
but for less than counts; and the angle is that of the shorter way, the least that any turn can do
with. -/
theorem error_measures_agree (ha : a.norm = 1) (hb : b.norm = 1) :
    (a.smallErrorTo b).norm = 2 * sin (a.angleTo b / 2) ∧
    (∃ k, 1 ≤ k ∧ a.errorTo b = (a.smallErrorTo b).scale k) ∧
    ((a.errorTo b).norm = a.angleTo b ↔
      sin (a.angleTo b / 2) = 0 ∨ Numeric.negligible ≤ sin (a.angleTo b / 2)) ∧
    |(a.errorTo b).norm - a.angleTo b| ≤ 1 / 10 ^ 20 ∧
    a.angleTo b = min (remainder a b).rotationAngle (-remainder a b).rotationAngle ∧
    IsLeast {angle | 0 ≤ angle ∧ ∃ axis : Vec3 ℝ, axis.norm = 1 ∧
      (ofAxisAngle axis angle = remainder a b ∨ ofAxisAngle axis angle = -remainder a b)}
      (a.angleTo b) := by
  have hr := norm_remainder ha hb
  have hsin := sin_half_angleTo ha hb
  have hangle := angleTo_eq_remainder ha hb
  refine ⟨?_, ?_, ?_, ?_, angleTo_eq_min_rotationAngle ha hb, isLeast_angleTo ha hb⟩
  · rw [norm_smallErrorTo, hsin]
  · rw [smallErrorTo_eq]
    exact exists_log_eq_scale hr
  · rw [hsin, hangle]
    exact norm_log_eq_iff hr
  · rw [hangle]
    exact norm_log_near hr

/-- The attitude half a turn away from `longWay`. -/
noncomputable def farSide : Quaternion ℝ := ⟨(4 : ℕ) / (5 : ℕ), 0, (3 : ℕ) / (5 : ℕ), 0⟩

theorem halfTurn_error_measures :
    longWay.norm = 1 ∧ farSide.norm = 1 ∧ longWay.angleTo farSide = π ∧
      (longWay.smallErrorTo farSide).norm = 2 * sin (longWay.angleTo farSide / 2) ∧
      (longWay.errorTo farSide).norm = longWay.angleTo farSide ∧
      ∃ k, 1 ≤ k ∧ longWay.errorTo farSide = (longWay.smallErrorTo farSide).scale k := by
  have hlong : longWay.norm = 1 := norm_eq_one (by norm_num [longWay, dot])
  have hfar : farSide.norm = 1 := norm_eq_one (by norm_num [farSide, dot])
  have hdot : longWay.dot farSide = 0 := by norm_num [longWay, farSide, dot]
  have hangle : longWay.angleTo farSide = π := by
    rw [angleTo_eq_arccos hlong hfar, hdot, abs_zero, Real.arccos_zero]
    ring
  obtain ⟨hsmall, hdirection, hexact, -⟩ := error_measures_agree hlong hfar
  refine ⟨hlong, hfar, hangle, hsmall, hexact.mpr (.inr ?_), hdirection⟩
  rw [hangle, Real.sin_pi_div_two, Numeric.negligible_exact]
  norm_num

end Quaternion
end Strapdown
