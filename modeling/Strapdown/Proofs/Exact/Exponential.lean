import Strapdown.Proofs.Exact.Quaternions

/-!
The rotation by a rotation vector, in exact arithmetic: the exponential of half the vector. Where a
vector is too short to count, its angle is corrected by less than its square.
-/
namespace Strapdown

attribute [local instance] Numeric.exact
attribute [-instance] Numeric.toDiv

variable {q : Quaternion ℝ} {u v rate : Vec3 ℝ} {s dt : ℝ} {n : ℕ}

/-- A vector that is zero, or long enough to count. -/
def Vec3.Counts (v : Vec3 ℝ) : Prop := v = Vec3.zero ∨ Numeric.negligible ≤ v.norm

theorem Vec3.counts_of_sq_le (h : (1 / 10 ^ 10) ^ 2 ≤ v.x * v.x + v.y * v.y + v.z * v.z) :
    v.Counts :=
  .inr (Real.le_sqrt_of_sq_le h)

theorem Hamilton.norm_exp_of_re {p : Hamilton} (hp : p.re = 0) : ‖NormedSpace.exp p‖ = 1 := by
  rw [Quaternion.norm_exp, hp, NormedSpace.exp_zero, norm_one]

theorem Hamilton.star_exp_of_re {p : Hamilton} (hp : p.re = 0) :
    star (NormedSpace.exp p) = NormedSpace.exp (-p) := by
  rw [NormedSpace.star_exp, Quaternion.star_eq_neg.mpr hp]

namespace Quaternion

/-- What the rotation by a vector is the exponential of. To first order the tangent of half the
angle stands for half the angle. -/
noncomputable def exponent (v : Vec3 ℝ) : Hamilton :=
  if v.norm < Numeric.negligible then
    (Real.arctan (v.norm / Numeric.two) / v.norm) • v.hamilton
  else (Numeric.half : ℝ) • v.hamilton

theorem exponent_of_lt (h : v.norm < 1 / 10 ^ 10) :
    exponent v = (Real.arctan (v.norm / 2) / v.norm) • v.hamilton :=
  if_pos h

theorem exponent_of_le (h : 1 / 10 ^ 10 ≤ v.norm) : exponent v = (1 / 2 : ℝ) • v.hamilton :=
  if_neg (not_lt.mpr h)

theorem re_exponent (v : Vec3 ℝ) : (exponent v).re = 0 := by
  unfold exponent
  split <;> simp

theorem exponent_of_counts (h : v.Counts) : exponent v = (1 / 2 : ℝ) • v.hamilton := by
  rcases h with rfl | hle
  · unfold exponent
    split <;> rw [Vec3.hamilton_eq_zero.mpr rfl, smul_zero, smul_zero]
  · exact exponent_of_le hle

theorem exponent_neg (v : Vec3 ℝ) : exponent (-v) = -exponent v := by
  unfold exponent
  rw [v.norm_neg_vec]
  split <;> rw [Vec3.hamilton_neg, smul_neg]

/-- Half the angle of a first order rotation. -/
theorem norm_first_order (v : Vec3 ℝ) :
    ‖(Real.arctan (v.norm / 2) / v.norm) • v.hamilton‖ = Real.arctan (v.norm / 2) := by
  have hnn := v.norm_nonneg
  have harc : 0 ≤ Real.arctan (v.norm / 2) := Real.arctan_nonneg.mpr (by positivity)
  rw [norm_smul, Real.norm_eq_abs, abs_of_nonneg (by positivity), ← Vec3.norm_eq]
  rcases hnn.eq_or_lt with hz | hpos
  · rw [← hz]
    simp
  · exact div_mul_cancel₀ _ hpos.ne'

theorem norm_first_order_parts (v : Vec3 ℝ) :
    (ofParts 1 (v.scale (1 / 2))).norm = √(1 + (v.norm / 2) ^ 2) := by
  have hsq : Quaternion.normSq (ofParts 1 (v.scale (1 / 2))).hamilton =
      1 + Quaternion.normSq v.hamilton / 4 := by
    rw [Quaternion.normSq_def', Quaternion.normSq_def']
    simp [ofParts, Vec3.scale, Vec3.map]
    ring
  rw [norm_eq, ← Real.sqrt_mul_self (norm_nonneg _), ← Quaternion.normSq_eq_norm_mul_self, hsq,
    Quaternion.normSq_eq_norm_mul_self, Vec3.norm_eq]
  congr 1
  ring

theorem exp_first_order (h : v.norm < 1 / 10 ^ 10) :
    exp v = (ofParts 1 (v.scale (1 / 2))).normalize := by
  have hd : degenerate v.length = true := by
    rw [degenerate_eq, Vec3.length_eq, ← Vec3.norm_eq]
    exact decide_eq_true h
  rw [exp]
  simp only [hd, if_true]
  rfl

theorem exp_regular (h : 1 / 10 ^ 10 ≤ v.norm) :
    exp v = ofParts (Real.cos (v.norm / 2)) (v.scale (Real.sin (v.norm / 2) / v.norm)) := by
  have hd : degenerate v.length = false := by
    rw [degenerate_eq, Vec3.length_eq, ← Vec3.norm_eq]
    exact decide_eq_false (not_lt.mpr h)
  have hhalf : v.length * Numeric.half = v.norm / 2 := by
    change v.norm * (1 / 2) = _
    ring
  rw [exp]
  simp only [hd, Bool.false_eq_true, if_false, hhalf]
  rfl

theorem hamilton_exp_zero : (exp Vec3.zero).hamilton = NormedSpace.exp (exponent Vec3.zero) := by
  have hsmall : (Vec3.zero : Vec3 ℝ).norm < 1 / 10 ^ 10 := by
    rw [Vec3.norm_zero_vec]
    norm_num
  rw [Quaternion.exp_of_re_eq_zero _ (re_exponent _), exponent_of_counts (.inl rfl),
    exp_first_order hsmall, normalize_eq, norm_first_order_parts, Vec3.norm_zero_vec,
    if_neg (by norm_num), hamilton_divide, hamilton_ofParts, Vec3.hamilton_scale,
    Vec3.hamilton_eq_zero.mpr rfl]
  simp

theorem hamilton_exp_first_order (hpos : 0 < v.norm) (h : v.norm < 1 / 10 ^ 10) :
    (exp v).hamilton = NormedSpace.exp (exponent v) := by
  have hroot : 1 ≤ √(1 + (v.norm / 2) ^ 2) := by
    rw [Real.one_le_sqrt]
    linarith [sq_nonneg (v.norm / 2)]
  have harc : Real.arctan (v.norm / 2) ≠ 0 := (Real.arctan_pos.mpr (by positivity)).ne'
  rw [Quaternion.exp_of_re_eq_zero _ (re_exponent v), exp_first_order h, normalize_eq,
    norm_first_order_parts, if_neg (by linarith), hamilton_divide, hamilton_ofParts,
    Vec3.hamilton_scale, exponent_of_lt h, norm_first_order, Real.cos_arctan, Real.sin_arctan,
    smul_smul, smul_add, smul_smul, Quaternion.smul_coe]
  congr 2
  · ring
  · field_simp

theorem hamilton_exp_regular (h : 1 / 10 ^ 10 ≤ v.norm) :
    (exp v).hamilton = NormedSpace.exp (exponent v) := by
  have hpos : 0 < v.norm := lt_of_lt_of_le (by positivity) h
  have hhalf : ‖(1 / 2 : ℝ) • v.hamilton‖ = v.norm / 2 := by
    rw [norm_smul, ← Vec3.norm_eq]
    norm_num
    ring
  rw [Quaternion.exp_of_re_eq_zero _ (re_exponent v), exp_regular h, hamilton_ofParts,
    Vec3.hamilton_scale, exponent_of_le h, hhalf, smul_smul]
  congr 2
  field_simp

/-- Turning by a vector is multiplying with an exponential. -/
theorem hamilton_exp (v : Vec3 ℝ) : (exp v).hamilton = NormedSpace.exp (exponent v) := by
  by_cases h : v.norm < 1 / 10 ^ 10
  · rcases eq_or_ne v Vec3.zero with rfl | hv
    · exact hamilton_exp_zero
    · exact hamilton_exp_first_order (Vec3.norm_pos_of_ne hv) h
  · exact hamilton_exp_regular (not_lt.mp h)

@[simp] theorem norm_exp_eq_one (v : Vec3 ℝ) : (exp v).norm = 1 := by
  rw [norm_eq, hamilton_exp, Hamilton.norm_exp_of_re (re_exponent v)]

theorem exp_zero : exp (Vec3.zero : Vec3 ℝ) = identity := by
  apply hamilton_injective
  rw [hamilton_exp, exponent_of_counts (.inl rfl), Vec3.hamilton_eq_zero.mpr rfl, smul_zero,
    NormedSpace.exp_zero, hamilton_identity]

/-- Turning back undoes a turn, also one of first order. -/
theorem mul_exp_mul_exp_neg (q : Quaternion ℝ) (v : Vec3 ℝ) : q * exp v * exp (-v) = q := by
  let +nondep : NormedAlgebra ℚ Hamilton := .restrictScalars ℚ ℝ Hamilton
  have hne : NormedSpace.exp (exponent v) ≠ 0 := NormedSpace.isUnit_exp _ |>.ne_zero
  apply hamilton_injective
  rw [hamilton_mul, hamilton_mul, hamilton_exp, hamilton_exp, exponent_neg, NormedSpace.exp_neg,
    mul_assoc, mul_inv_cancel₀ hne, mul_one]

/-- Turns about one axis add up. -/
theorem hamilton_exp_scale (h : v.Counts) (hn : 1 ≤ n) :
    (exp (v.scale n)).hamilton = (exp v).hamilton ^ n := by
  let +nondep : NormedAlgebra ℚ Hamilton := .restrictScalars ℚ ℝ Hamilton
  have hcounts : (v.scale n).Counts := by
    rcases h with rfl | hle
    · refine .inl (Vec3.hamilton_eq_zero.mp ?_)
      rw [Vec3.hamilton_scale, Vec3.hamilton_eq_zero.mpr rfl, smul_zero]
    · refine .inr (hle.trans ?_)
      have hone : (1 : ℝ) ≤ n := by exact_mod_cast hn
      rw [Vec3.norm_scale, Nat.abs_cast]
      exact le_mul_of_one_le_left v.norm_nonneg hone
  rw [hamilton_exp, hamilton_exp, exponent_of_counts h, exponent_of_counts hcounts,
    ← NormedSpace.exp_nsmul, Vec3.hamilton_scale, smul_comm, Nat.cast_smul_eq_nsmul]

/-- A step turns a unit quaternion, with nothing left to normalize. -/
theorem integrate_eq (h : q.norm = 1) (rate : Vec3 ℝ) (dt : ℝ) :
    q.integrate rate dt = q * exp (rate.scale dt) := by
  apply normalize_of_norm_eq_one
  rw [norm_mul, h, norm_exp_eq_one, one_mul]

theorem norm_integrate (q : Quaternion ℝ) (rate : Vec3 ℝ) (dt : ℝ) :
    (q.integrate rate dt).norm = 1 :=
  norm_normalize _

/-- A root below `1 + x` keeps the tangent near its angle. -/
theorem sub_sq_le_arctan (h : 0 ≤ s) : s - s ^ 2 ≤ Real.arctan s := by
  have hroot : √(1 + s ^ 2) ≤ 1 + s := by
    rw [Real.sqrt_le_left (by positivity)]
    nlinarith
  have hpos : 0 < √(1 + s ^ 2) := by positivity
  calc s - s ^ 2 ≤ s / (1 + s) := by
        rw [le_div_iff₀ (by positivity)]
        nlinarith [pow_nonneg h 3]
    _ ≤ s / √(1 + s ^ 2) := by gcongr
    _ = Real.sin (Real.arctan s) := (Real.sin_arctan s).symm
    _ ≤ Real.arctan s := Real.sin_le (Real.arctan_nonneg.mpr h)

theorem arctan_le (h : 0 ≤ s) : Real.arctan s ≤ s := by
  have hle := Real.le_tan (Real.arctan_nonneg.mpr h) (Real.arctan_lt_pi_div_two s)
  rwa [Real.tan_arctan] at hle

/-- The exponent is half the vector, but for less than counts. -/
theorem exponent_near (v : Vec3 ℝ) :
    ‖exponent v - (1 / 2 : ℝ) • v.hamilton‖ ≤ 1 / 10 ^ 20 := by
  rcases lt_or_ge v.norm (1 / 10 ^ 10) with h | h
  · rw [exponent_of_lt h]
    rcases eq_or_ne v Vec3.zero with rfl | hv
    · rw [Vec3.hamilton_eq_zero.mpr rfl]
      simp
    have hpos := Vec3.norm_pos_of_ne hv
    have hlow := sub_sq_le_arctan (s := v.norm / 2) (by positivity)
    have hhigh := arctan_le (s := v.norm / 2) (by positivity)
    have hsq : (v.norm / 2) ^ 2 ≤ 1 / 10 ^ 20 := by nlinarith
    have hfactor : (Real.arctan (v.norm / 2) / v.norm - 1 / 2) * v.norm =
        Real.arctan (v.norm / 2) - v.norm / 2 := by
      field_simp
    rw [← sub_smul, norm_smul, ← Vec3.norm_eq, Real.norm_eq_abs, ← abs_of_pos hpos, ← abs_mul,
      abs_of_pos hpos, hfactor, abs_le]
    constructor <;> linarith
  · rw [exponent_of_le h, sub_self, norm_zero]
    norm_num

end Quaternion
end Strapdown
