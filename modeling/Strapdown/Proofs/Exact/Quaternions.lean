import Mathlib
import Strapdown.Attitude.Euler
import Strapdown.Attitude.Propagation

/-!
Attitude algebra in exact arithmetic. Over the real numbers its quaternions are Hamilton's, vectors
are those without a scalar part, and norms are norms.
-/
open scoped Quaternion in
/-- Hamilton's quaternions, with their norm and scalar product. -/
abbrev Strapdown.Hamilton : Type := ℍ[ℝ]

namespace Strapdown

/-- Exact numbers: all of them are finite, and every operation gives its exact result. -/
@[reducible]
noncomputable def Numeric.exact : Numeric ℝ where
  zero := 0
  half := 1 / (2 : ℕ)
  one := 1
  two := (2 : ℕ)
  negligible := 1 / (10 : ℕ) ^ 10
  degreesPerRadian := (180 : ℕ) / Real.pi
  radiansPerDegree := Real.pi / (180 : ℕ)
  sqrt := Real.sqrt
  sin := Real.sin
  cos := Real.cos
  asin := Real.arcsin
  acos := Real.arccos
  atan2 y x := Complex.arg ⟨x, y⟩
  abs x := |x|
  max := Max.max
  lt x y := decide (x < y)
  isFinite _ := true

attribute [local instance] Numeric.exact

-- A quotient of reals is written with the division of the field, which is the same one.
attribute [-instance] Numeric.toDiv

variable {q a b : Quaternion ℝ} {u v : Vec3 ℝ} {s : ℝ}

theorem Numeric.lt_exact (x y : ℝ) : Numeric.lt x y = true ↔ x < y := decide_eq_true_iff

theorem Numeric.negligible_exact : (Numeric.negligible : ℝ) = 1 / 10 ^ 10 := rfl

namespace Vec3

/-- A vector as the quaternion without a scalar part. -/
def hamilton (v : Vec3 ℝ) : Hamilton := ⟨0, v.x, v.y, v.z⟩

@[simp] theorem re_hamilton (v : Vec3 ℝ) : v.hamilton.re = 0 := rfl
@[simp] theorem imI_hamilton (v : Vec3 ℝ) : v.hamilton.imI = v.x := rfl
@[simp] theorem imJ_hamilton (v : Vec3 ℝ) : v.hamilton.imJ = v.y := rfl
@[simp] theorem imK_hamilton (v : Vec3 ℝ) : v.hamilton.imK = v.z := rfl

@[simp] theorem hamilton_add (u v : Vec3 ℝ) : (u + v).hamilton = u.hamilton + v.hamilton := by
  ext <;> simp

@[simp] theorem hamilton_neg (v : Vec3 ℝ) : (-v).hamilton = -v.hamilton := by
  ext <;> simp <;> rfl

@[simp] theorem hamilton_scale (v : Vec3 ℝ) (s : ℝ) : (v.scale s).hamilton = s • v.hamilton := by
  ext <;> simp [scale, map, mul_comm]

theorem norm_eq (v : Vec3 ℝ) : v.norm = ‖v.hamilton‖ := by
  have hsq : Quaternion.normSq v.hamilton = v.x * v.x + v.y * v.y + v.z * v.z := by
    rw [Quaternion.normSq_def']
    simp
    ring
  have hnorm : v.norm = √(v.x * v.x + v.y * v.y + v.z * v.z) := rfl
  rw [hnorm, ← hsq, Quaternion.normSq_eq_norm_mul_self, Real.sqrt_mul_self (norm_nonneg _)]

theorem length_eq (v : Vec3 ℝ) : v.length = ‖v.hamilton‖ := norm_eq v

@[simp] theorem hamilton_eq_zero : v.hamilton = 0 ↔ v = Vec3.zero := by
  constructor
  · intro h
    exact Vec3.ext (congrArg (·.imI) h) (congrArg (·.imJ) h) (congrArg (·.imK) h)
  · rintro rfl
    rfl

theorem hamilton_injective (h : u.hamilton = v.hamilton) : u = v :=
  Vec3.ext (congrArg (·.imI) h) (congrArg (·.imJ) h) (congrArg (·.imK) h)

theorem scale_scale (v : Vec3 ℝ) (s t : ℝ) : (v.scale s).scale t = v.scale (s * t) := by
  ext <;> exact mul_assoc _ s t

theorem scale_zero (v : Vec3 ℝ) : v.scale 0 = Vec3.zero := by
  apply Vec3.ext <;> exact mul_zero _

theorem norm_nonneg (v : Vec3 ℝ) : 0 ≤ v.norm := Real.sqrt_nonneg _

theorem norm_eq_one (h : v.x * v.x + v.y * v.y + v.z * v.z = 1) : v.norm = 1 :=
  Real.sqrt_eq_one.mpr h

theorem norm_zero_vec : (Vec3.zero : Vec3 ℝ).norm = 0 := by
  rw [norm_eq, hamilton_eq_zero.mpr rfl, norm_zero]

theorem norm_pos_of_ne (h : v ≠ Vec3.zero) : 0 < v.norm := by
  rw [norm_eq]
  exact norm_pos_iff.mpr (mt hamilton_eq_zero.mp h)

theorem norm_neg_vec (v : Vec3 ℝ) : (-v).norm = v.norm := by
  rw [norm_eq, norm_eq, hamilton_neg, norm_neg]

theorem norm_scale (v : Vec3 ℝ) (s : ℝ) : (v.scale s).norm = |s| * v.norm := by
  rw [norm_eq, norm_eq, hamilton_scale, norm_smul, Real.norm_eq_abs]

end Vec3

namespace Quaternion

/-- A quaternion among Hamilton's. -/
def hamilton (q : Quaternion ℝ) : Hamilton := ⟨q.w, q.x, q.y, q.z⟩

@[simp] theorem re_hamilton (q : Quaternion ℝ) : q.hamilton.re = q.w := rfl
@[simp] theorem imI_hamilton (q : Quaternion ℝ) : q.hamilton.imI = q.x := rfl
@[simp] theorem imJ_hamilton (q : Quaternion ℝ) : q.hamilton.imJ = q.y := rfl
@[simp] theorem imK_hamilton (q : Quaternion ℝ) : q.hamilton.imK = q.z := rfl

theorem hamilton_injective (h : a.hamilton = b.hamilton) : a = b :=
  Quaternion.ext (congrArg (·.re) h) (congrArg (·.imI) h) (congrArg (·.imJ) h)
    (congrArg (·.imK) h)

@[simp] theorem hamilton_mul (a b : Quaternion ℝ) :
    (a * b).hamilton = a.hamilton * b.hamilton := by
  ext <;> simp <;> rfl

@[simp] theorem hamilton_conjugate (q : Quaternion ℝ) : q.conjugate.hamilton = star q.hamilton := by
  ext <;> simp <;> rfl

@[simp] theorem hamilton_neg (q : Quaternion ℝ) : (-q).hamilton = -q.hamilton := by
  ext <;> simp <;> rfl

@[simp] theorem hamilton_identity : (identity : Quaternion ℝ).hamilton = 1 := by
  ext <;> simp <;> rfl

@[simp] theorem hamilton_divide (q : Quaternion ℝ) (s : ℝ) :
    (q.divide s).hamilton = s⁻¹ • q.hamilton := by
  ext <;> simp [divide, map, div_eq_inv_mul]

theorem hamilton_ofParts (s : ℝ) (v : Vec3 ℝ) :
    (ofParts s v).hamilton = (s : Hamilton) + v.hamilton := by
  ext <;> simp [ofParts]

theorem norm_eq (q : Quaternion ℝ) : q.norm = ‖q.hamilton‖ := by
  have hsq : Quaternion.normSq q.hamilton = q.x * q.x + q.z * q.z + (q.y * q.y + q.w * q.w) := by
    rw [Quaternion.normSq_def']
    simp
    ring
  have hnorm : q.norm = √(q.x * q.x + q.z * q.z + (q.y * q.y + q.w * q.w)) := rfl
  rw [hnorm, ← hsq, Quaternion.normSq_eq_norm_mul_self, Real.sqrt_mul_self (norm_nonneg _)]

theorem norm_eq_one (h : q.dot q = 1) : q.norm = 1 := Real.sqrt_eq_one.mpr h

theorem degenerate_eq (s : ℝ) : degenerate s = decide (s < 1 / 10 ^ 10) := Bool.false_or _

theorem normalize_eq (q : Quaternion ℝ) :
    q.normalize = if q.norm < 1 / 10 ^ 10 then identity else q.divide q.norm := by
  have hlen : q.length = q.norm := rfl
  rw [normalize, hlen, degenerate_eq]
  simp only [decide_eq_true_eq]

/-- What is of unit length already stays as it is. -/
theorem normalize_of_norm_eq_one (h : q.norm = 1) : q.normalize = q := by
  rw [normalize_eq, h, if_neg (by norm_num)]
  apply hamilton_injective
  rw [hamilton_divide, inv_one, one_smul]

theorem norm_normalize (q : Quaternion ℝ) : q.normalize.norm = 1 := by
  rw [normalize_eq]
  split
  · rw [norm_eq, hamilton_identity, norm_one]
  · next h =>
    have hpos : 0 < q.norm := lt_of_lt_of_le (by norm_num) (not_lt.mp h)
    rw [norm_eq (q.divide _), hamilton_divide, norm_smul, norm_inv, Real.norm_eq_abs, norm_eq q,
      abs_norm, ← norm_eq q, inv_mul_cancel₀ hpos.ne']

@[simp] theorem norm_identity : (identity : Quaternion ℝ).norm = 1 := by
  rw [norm_eq, hamilton_identity, norm_one]

theorem norm_neg_eq (q : Quaternion ℝ) : (-q).norm = q.norm := by
  rw [norm_eq, norm_eq, hamilton_neg, norm_neg]

theorem norm_mul (a b : Quaternion ℝ) : (a * b).norm = a.norm * b.norm := by
  rw [norm_eq, norm_eq, norm_eq, hamilton_mul, NormMulClass.norm_mul]

end Quaternion
end Strapdown
