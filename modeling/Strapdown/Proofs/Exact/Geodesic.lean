import Strapdown.Attitude.Error
import Strapdown.Proofs.Exact.Exponential

/-!
The angle between attitudes is a metric, and rotations are at most as far apart as their rotation
vectors: on the sphere, two sides of a triangle and the angle between them leave a third side that
is no longer than in the plane.
-/
namespace Strapdown

attribute [local instance] Numeric.exact
attribute [-instance] Numeric.toDiv

open Real (cos sin sinc)
open InnerProductGeometry (angle)

variable {x y s t : ℝ} {p r : Hamilton} {a b c : Quaternion ℝ} {u v : Vec3 ℝ}

namespace Sphere

/-- The chord of the sine from zero gets less steep. -/
theorem sin_div_antitone (hx : 0 < x) (hxy : x ≤ y) (hy : y ≤ Real.pi) : sin y / y ≤ sin x / x := by
  have hpos : 0 < y := hx.trans_le hxy
  have hratio : x / y ≤ 1 := (div_le_one hpos).mpr hxy
  have hconcave := strictConcaveOn_sin_Icc.concaveOn.2 (x := 0) (y := y)
    ⟨le_rfl, Real.pi_pos.le⟩ ⟨hpos.le, hy⟩ (sub_nonneg.mpr hratio) (by positivity : 0 ≤ x / y)
    (by ring)
  simp only [Real.sin_zero, smul_eq_mul, mul_zero, zero_add] at hconcave
  rw [div_mul_cancel₀ _ hpos.ne', div_mul_eq_mul_div, div_le_iff₀ hpos] at hconcave
  rw [div_le_div_iff₀ hpos hx]
  linarith

theorem hasDerivAt_cos_sqrt (hx : 0 < x) :
    HasDerivAt (fun x => cos √x) (-(sin √x / √x) / 2) x := by
  refine ((Real.hasDerivAt_cos √x).comp x (Real.hasDerivAt_sqrt hx.ne')).congr_deriv ?_
  field_simp

theorem convexOn_cos_sqrt : ConvexOn ℝ (Set.Icc 0 (Real.pi ^ 2)) fun x => cos √x := by
  refine MonotoneOn.convexOn_of_deriv (convex_Icc _ _) (by fun_prop) ?_ ?_
  · intro x hx
    rw [interior_Icc] at hx
    exact (hasDerivAt_cos_sqrt hx.1).differentiableAt.differentiableWithinAt
  · intro x hx y hy hxy
    rw [interior_Icc] at hx hy
    rw [(hasDerivAt_cos_sqrt hx.1).deriv, (hasDerivAt_cos_sqrt hy.1).deriv]
    have hle : √y ≤ Real.pi := Real.sqrt_le_iff.mpr ⟨Real.pi_pos.le, hy.2.le⟩
    have := sin_div_antitone (Real.sqrt_pos.mpr hx.1) (Real.sqrt_le_sqrt hxy) hle
    linarith

/-- The square of a side in the plane, by the other two and the cosine between them. -/
def side (x y t : ℝ) : ℝ := x * (x - y * t) + y * (y - x * t)

theorem side_eq (x y t : ℝ) : side x y t = x ^ 2 + y ^ 2 - 2 * x * y * t := by
  unfold side
  ring

/-- The cosine of a side on the sphere, by the other two and the cosine between them. -/
noncomputable def cosSide (x y t : ℝ) : ℝ := cos x * cos y + sin x * sin y * t

theorem side_one (x y : ℝ) : side x y 1 = (x - y) ^ 2 := by
  unfold side
  ring

theorem cosSide_one (x y : ℝ) : cosSide x y 1 = cos (x - y) := by
  rw [cosSide, Real.cos_sub, mul_one]

/-- The cosine of a side lies between those of the difference and of the sum of the others. -/
theorem neg_one_le_cosSide (ht : |t| ≤ 1) : -1 ≤ cosSide x y t := by
  obtain ⟨hlow, hhigh⟩ := abs_le.mp ht
  have hsplit : cosSide x y t = (1 + t) / 2 * cos (x - y) + (1 - t) / 2 * cos (x + y) := by
    rw [cosSide, Real.cos_sub, Real.cos_add]
    ring
  have hsub := mul_le_mul_of_nonneg_left (Real.neg_one_le_cos (x - y))
    (by linarith : 0 ≤ (1 + t) / 2)
  have hadd := mul_le_mul_of_nonneg_left (Real.neg_one_le_cos (x + y))
    (by linarith : 0 ≤ (1 - t) / 2)
  linarith

/-- Where the comparison holds at one angle, it holds at all smaller ones: on the way to angle zero
the cosine of the plane side is convex and that of the spherical side is affine. -/
theorem cos_side_le_of_le (hst : s ≤ t) (ht : t ≤ 1) (hxy : 0 ≤ x * y)
    (hs : side x y s ≤ Real.pi ^ 2) (h : cos √(side x y s) ≤ cosSide x y s) :
    cos √(side x y t) ≤ cosSide x y t := by
  rcases hst.eq_or_lt with rfl | hlt
  · exact h
  have hden : 0 < 1 - s := by linarith
  have hmono {r : ℝ} (hr : s ≤ r) (hr' : r ≤ 1) : side x y r ∈ Set.Icc 0 (Real.pi ^ 2) := by
    have hle : x * y * s ≤ x * y * r := mul_le_mul_of_nonneg_left hr hxy
    have hle' : x * y * r ≤ x * y * 1 := mul_le_mul_of_nonneg_left hr' hxy
    rw [side_eq] at hs ⊢
    constructor <;> nlinarith [sq_nonneg (x - y)]
  have hone : cos √(side x y 1) = cosSide x y 1 := by
    rw [side_one, Real.sqrt_sq_eq_abs, Real.cos_abs, cosSide_one]
  -- the angle is an average of zero and of the largest one
  obtain ⟨j, k, hj, hk, hjk, rfl⟩ : ∃ j k : ℝ, 0 ≤ j ∧ 0 ≤ k ∧ j + k = 1 ∧ t = j * 1 + k * s := by
    refine ⟨(t - s) / (1 - s), (1 - t) / (1 - s), by positivity, by positivity, ?_, ?_⟩ <;>
      field_simp <;> ring
  have hside : side x y (j * 1 + k * s) = j * side x y 1 + k * side x y s := by
    unfold side
    linear_combination (-x ^ 2 - y ^ 2) * hjk
  have hcos : cosSide x y (j * 1 + k * s) = j * cosSide x y 1 + k * cosSide x y s := by
    unfold cosSide
    linear_combination (-(cos x * cos y)) * hjk
  have hconvex := convexOn_cos_sqrt.2 (hmono (by linarith) le_rfl) (hmono le_rfl (by linarith))
    hj hk hjk
  simp only [smul_eq_mul] at hconvex
  calc cos √(side x y (j * 1 + k * s)) ≤ j * cos √(side x y 1) + k * cos √(side x y s) := by
        rw [hside]
        exact hconvex
    _ ≤ j * cosSide x y 1 + k * cosSide x y s := by
        rw [hone]
        gcongr
    _ = cosSide x y (j * 1 + k * s) := hcos.symm

theorem cos_side_le_of_add_le (hx : 0 ≤ x) (hy : 0 ≤ y) (ht : |t| ≤ 1) (hsum : x + y ≤ Real.pi) :
    cos √(side x y t) ≤ cosSide x y t := by
  obtain ⟨hlow, hhigh⟩ := abs_le.mp ht
  have hside : side x y (-1) = (x + y) ^ 2 := by
    unfold side
    ring
  have hcos : cosSide x y (-1) = cos (x + y) := by
    rw [cosSide, Real.cos_add]
    ring
  refine cos_side_le_of_le hlow hhigh (mul_nonneg hx hy) ?_ ?_ <;> rw [hside]
  · exact pow_le_pow_left₀ (by positivity) hsum 2
  · rw [Real.sqrt_sq (by positivity), hcos]

/-- Where two sides are more than half a circle together, the plane side reaches half a circle at
some angle, and no cosine is below that one. -/
theorem cos_side_le_of_lt_add (hx : 0 ≤ x) (hy : 0 ≤ y) (ht : |t| ≤ 1)
    (h : side x y t ≤ Real.pi ^ 2) (hsum : Real.pi < x + y) :
    cos √(side x y t) ≤ cosSide x y t := by
  obtain ⟨hlow, hhigh⟩ := abs_le.mp ht
  have hxy : 0 ≤ x * y := mul_nonneg hx hy
  have hpi : Real.pi ^ 2 < (x + y) ^ 2 := pow_lt_pow_left₀ hsum Real.pi_pos.le two_ne_zero
  rcases hxy.eq_or_lt with hz | hpos
  · exfalso
    rw [side_eq] at h
    nlinarith
  have hden : 0 < 2 * x * y := by linarith
  have hs : side x y ((x ^ 2 + y ^ 2 - Real.pi ^ 2) / (2 * x * y)) = Real.pi ^ 2 := by
    rw [side_eq, mul_div_cancel₀ _ hden.ne']
    ring
  have hst : (x ^ 2 + y ^ 2 - Real.pi ^ 2) / (2 * x * y) ≤ t := by
    rw [div_le_iff₀ hden]
    rw [side_eq] at h
    linarith
  have hs₁ : -1 ≤ (x ^ 2 + y ^ 2 - Real.pi ^ 2) / (2 * x * y) := by
    rw [le_div_iff₀ hden]
    linarith
  refine cos_side_le_of_le hst hhigh hxy hs.le ?_
  rw [hs, Real.sqrt_sq Real.pi_pos.le, Real.cos_pi]
  exact neg_one_le_cosSide (abs_le.mpr ⟨hs₁, hst.trans hhigh⟩)

/-- Two sides and the angle between them leave a third side that is no longer than in the plane. -/
theorem cos_side_le (hx : 0 ≤ x) (hy : 0 ≤ y) (ht : |t| ≤ 1) (h : side x y t ≤ Real.pi ^ 2) :
    cos √(side x y t) ≤ cosSide x y t := by
  by_cases hsum : x + y ≤ Real.pi
  · exact cos_side_le_of_add_le hx hy ht hsum
  · exact cos_side_le_of_lt_add hx hy ht h (not_le.mp hsum)

end Sphere

namespace Hamilton
open Sphere

theorem inner_eq (p r : Hamilton) :
    inner ℝ p r = p.re * r.re + p.imI * r.imI + p.imJ * r.imJ + p.imK * r.imK := by
  rw [Quaternion.inner_def]
  simp

/-- The exponentials of two vectors as sides of a triangle on the sphere. -/
theorem inner_exp (hp : p.re = 0) (hr : r.re = 0) :
    inner ℝ (NormedSpace.exp p) (NormedSpace.exp r) = cosSide ‖p‖ ‖r‖ (cos (angle p r)) := by
  have hsinc (q : Hamilton) : sin ‖q‖ / ‖q‖ * ‖q‖ = sin ‖q‖ := by
    rcases eq_or_ne ‖q‖ 0 with hz | hne
    · simp [hz]
    · exact div_mul_cancel₀ _ hne
  have hinner := InnerProductGeometry.cos_angle_mul_norm_mul_norm p r
  have hcoordinates := inner_eq p r
  rw [hp, hr, mul_zero, zero_add] at hcoordinates
  have hexpand : inner ℝ (NormedSpace.exp p) (NormedSpace.exp r) =
      cos ‖p‖ * cos ‖r‖ + sin ‖p‖ / ‖p‖ * (sin ‖r‖ / ‖r‖) * inner ℝ p r := by
    rw [Quaternion.exp_of_re_eq_zero p hp, Quaternion.exp_of_re_eq_zero r hr, inner_eq,
      hcoordinates]
    simp [hp, hr]
    ring
  calc inner ℝ (NormedSpace.exp p) (NormedSpace.exp r)
      = cos ‖p‖ * cos ‖r‖ +
        (sin ‖p‖ / ‖p‖ * ‖p‖) * (sin ‖r‖ / ‖r‖ * ‖r‖) * cos (angle p r) := by
          rw [hexpand, ← hinner]
          ring
    _ = cosSide ‖p‖ ‖r‖ (cos (angle p r)) := by rw [hsinc, hsinc, cosSide]

theorem side_norm (p r : Hamilton) : side ‖p‖ ‖r‖ (cos (angle p r)) = ‖p - r‖ ^ 2 := by
  rw [norm_sub_sq_real, ← InnerProductGeometry.cos_angle_mul_norm_mul_norm, side]
  ring

/-- The exponential takes no two vectors further apart. -/
theorem angle_exp_le (hp : p.re = 0) (hr : r.re = 0) :
    angle (NormedSpace.exp p) (NormedSpace.exp r) ≤ ‖p - r‖ := by
  by_cases h : Real.pi < ‖p - r‖
  · exact (InnerProductGeometry.angle_le_pi _ _).trans h.le
  have hle := not_lt.mp h
  have hcos := cos_side_le (norm_nonneg p) (norm_nonneg r) (Real.abs_cos_le_one (angle p r))
    (by rw [side_norm]; exact pow_le_pow_left₀ (norm_nonneg _) hle 2)
  rw [side_norm, Real.sqrt_sq (norm_nonneg _), ← inner_exp hp hr] at hcos
  rw [angle, norm_exp_of_re hp, norm_exp_of_re hr, mul_one, div_one]
  calc Real.arccos (inner ℝ (NormedSpace.exp p) (NormedSpace.exp r))
      ≤ Real.arccos (cos ‖p - r‖) := Real.arccos_le_arccos hcos
    _ = ‖p - r‖ := Real.arccos_cos (norm_nonneg _) hle

end Hamilton

namespace Quaternion

theorem dot_eq (a b : Quaternion ℝ) : a.dot b = inner ℝ a.hamilton b.hamilton := by
  rw [Hamilton.inner_eq]
  simp only [re_hamilton, imI_hamilton, imJ_hamilton, imK_hamilton]
  change a.x * b.x + a.z * b.z + (a.y * b.y + a.w * b.w) = _
  ring

theorem dot_self (h : a.norm = 1) : a.dot a = 1 := by
  rw [dot_eq, real_inner_self_eq_norm_sq, ← norm_eq, h, one_pow]

theorem abs_dot_le_one (ha : a.norm = 1) (hb : b.norm = 1) : |a.dot b| ≤ 1 := by
  rw [norm_eq] at ha hb
  have hle := abs_real_inner_le_norm a.hamilton b.hamilton
  rwa [ha, hb, mul_one, ← dot_eq] at hle

theorem angleTo_eq_arccos (ha : a.norm = 1) (hb : b.norm = 1) :
    a.angleTo b = 2 * Real.arccos |a.dot b| := by
  have hclamp : Numeric.clamp (0 : ℝ) 1 |a.dot b| = |a.dot b| := by
    have hlow : ¬ |a.dot b| < 0 := not_lt.mpr (abs_nonneg _)
    have hhigh : ¬ 1 < |a.dot b| := not_lt.mpr (abs_dot_le_one ha hb)
    simp only [Numeric.clamp, Numeric.lt, hlow, hhigh, decide_false, Bool.false_eq_true, if_false]
  change 2 * Real.arccos (Numeric.clamp (0 : ℝ) 1 |a.dot b|) = _
  rw [hclamp]

/-- The angle between attitudes is twice the one on the sphere, from the nearer of `b` and `-b`. -/
theorem angleTo_eq_min (ha : a.norm = 1) (hb : b.norm = 1) :
    a.angleTo b = 2 * min (angle a.hamilton b.hamilton) (angle a.hamilton (-b.hamilton)) := by
  rw [angleTo_eq_arccos ha hb, abs_eq_max_neg, Real.antitone_arccos.map_max, angle, angle,
    norm_neg, inner_neg_right, ← norm_eq, ← norm_eq, ha, hb, mul_one, div_one, div_one, dot_eq]

theorem angleTo_triangle (ha : a.norm = 1) (hb : b.norm = 1) (hc : c.norm = 1) :
    a.angleTo c ≤ a.angleTo b + b.angleTo c := by
  rw [angleTo_eq_min ha hb, angleTo_eq_min hb hc, angleTo_eq_min ha hc, ← mul_add]
  refine mul_le_mul_of_nonneg_left ?_ zero_le_two
  generalize a.hamilton = a, b.hamilton = b, c.hamilton = c
  have htriangle (b c : Hamilton) := InnerProductGeometry.angle_le_angle_add_angle a b c
  rcases min_choice (angle a b) (angle a (-b)) with hab | hab <;>
    rcases min_choice (angle b c) (angle b (-c)) with hbc | hbc <;> rw [hab, hbc]
  · exact (min_le_left _ _).trans (htriangle b c)
  · exact (min_le_right _ _).trans (htriangle b (-c))
  · rw [← InnerProductGeometry.angle_neg_neg b c]
    exact (min_le_right _ _).trans (htriangle (-b) (-c))
  · rw [← InnerProductGeometry.angle_neg_neg b (-c), neg_neg]
    exact (min_le_left _ _).trans (htriangle (-b) c)

theorem dot_mul_left (a b c : Quaternion ℝ) : (c * a).dot (c * b) = c.dot c * a.dot b := by
  simp only [dot_eq, Hamilton.inner_eq, hamilton_mul, Quaternion.re_mul, Quaternion.imI_mul,
    Quaternion.imJ_mul, Quaternion.imK_mul]
  ring

theorem dot_mul_right (a b c : Quaternion ℝ) : (a * c).dot (b * c) = a.dot b * c.dot c := by
  simp only [dot_eq, Hamilton.inner_eq, hamilton_mul, Quaternion.re_mul, Quaternion.imI_mul,
    Quaternion.imJ_mul, Quaternion.imK_mul]
  ring

theorem angleTo_mul_left (h : c.norm = 1) (a b : Quaternion ℝ) :
    (c * a).angleTo (c * b) = a.angleTo b := by
  rw [angleTo, dot_mul_left, dot_self h, one_mul]
  rfl

theorem angleTo_mul_right (h : c.norm = 1) (a b : Quaternion ℝ) :
    (a * c).angleTo (b * c) = a.angleTo b := by
  rw [angleTo, dot_mul_right, dot_self h, mul_one]
  rfl

/-- Rotations are at most as far apart as their rotation vectors, but for less than counts. -/
theorem angleTo_exp_le (u v : Vec3 ℝ) :
    (exp u).angleTo (exp v) ≤ (u + -v).norm + 4 / 10 ^ 20 := by
  have hu := exponent_near u
  have hv := exponent_near v
  have hhalf : ‖(1 / 2 : ℝ) • u.hamilton - (1 / 2 : ℝ) • v.hamilton‖ = (u + -v).norm / 2 := by
    rw [← smul_sub, norm_smul, Vec3.norm_eq, Vec3.hamilton_add, Vec3.hamilton_neg,
      ← sub_eq_add_neg]
    norm_num
    ring
  have hdist : ‖exponent u - exponent v‖ ≤ (u + -v).norm / 2 + 2 / 10 ^ 20 := by
    calc ‖exponent u - exponent v‖
        = ‖(exponent u - (1 / 2 : ℝ) • u.hamilton) +
            ((1 / 2 : ℝ) • u.hamilton - (1 / 2 : ℝ) • v.hamilton) -
            (exponent v - (1 / 2 : ℝ) • v.hamilton)‖ := by
          congr 1
          abel
      _ ≤ ‖exponent u - (1 / 2 : ℝ) • u.hamilton‖ +
            ‖(1 / 2 : ℝ) • u.hamilton - (1 / 2 : ℝ) • v.hamilton‖ +
            ‖exponent v - (1 / 2 : ℝ) • v.hamilton‖ :=
          (norm_sub_le _ _).trans (add_le_add_left (norm_add_le _ _) _)
      _ ≤ (u + -v).norm / 2 + 2 / 10 ^ 20 := by
          rw [hhalf]
          linarith
  have hangle := Hamilton.angle_exp_le (re_exponent u) (re_exponent v)
  rw [angleTo_eq_min (norm_exp_eq_one u) (norm_exp_eq_one v), hamilton_exp, hamilton_exp]
  have hmin := min_le_left
    (angle (NormedSpace.exp (exponent u)) (NormedSpace.exp (exponent v)))
    (angle (NormedSpace.exp (exponent u)) (-NormedSpace.exp (exponent v)))
  linarith

end Quaternion
end Strapdown
