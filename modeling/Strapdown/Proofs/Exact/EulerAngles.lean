import Mathlib
import Strapdown.Attitude.Euler
import Strapdown.Proofs.Exact.AxisAngle
import Strapdown.Proofs.Exact.Rotation

/-!
Euler angles in exact arithmetic. Away from a vertical nose they are a chart of the attitudes: angles
come back from the attitude that they give, and an attitude, up to its sign, from its angles.
-/
namespace Strapdown

attribute [local instance] Numeric.exactRing Numeric.exact
attribute [-instance] Numeric.toDiv

open Real (cos sin)
open scoped Real
open Set (Ioo)

variable {q : Quaternion ℝ} {e : Euler ℝ} {axis : Vec3 ℝ} {angle x y s : ℝ}

namespace Quaternion

theorem rotateBack_ofAxisAngle (h : axis.norm = 1) (angle : ℝ) (v : Vec3 ℝ) :
    (ofAxisAngle axis angle).rotateBack v = (ofAxisAngle axis (-angle)).rotate v := by
  rw [rotateBack_eq, ofAxisAngle_neg (Vec3.le_of_norm_eq_one h)]

end Quaternion

/-- The body axes, by the angles about them. -/
inductive Axis
  | roll
  | pitch
  | yaw

namespace Axis

def unit : Axis → Vec3 ℝ
  | roll => ⟨1, 0, 0⟩
  | pitch => ⟨0, 1, 0⟩
  | yaw => ⟨0, 0, 1⟩

theorem norm_unit (axis : Axis) : axis.unit.norm = 1 := by
  cases axis <;> exact Vec3.norm_eq_one (by norm_num [unit])

noncomputable def turn (axis : Axis) (angle : ℝ) : Quaternion ℝ := .ofAxisAngle axis.unit angle

theorem norm_turn (axis : Axis) (angle : ℝ) : (axis.turn angle).norm = 1 :=
  Quaternion.norm_ofAxisAngle (Vec3.le_of_norm_eq_one axis.norm_unit) angle

theorem rotateBack_turn (axis : Axis) (angle : ℝ) (v : Vec3 ℝ) :
    (axis.turn angle).rotateBack v = (axis.turn (-angle)).rotate v :=
  Quaternion.rotateBack_ofAxisAngle axis.norm_unit angle v

theorem turn_eq (axis : Axis) (angle : ℝ) : axis.turn angle =
    match axis with
    | roll => ⟨cos (angle / 2), sin (angle / 2), 0, 0⟩
    | pitch => ⟨cos (angle / 2), 0, sin (angle / 2), 0⟩
    | yaw => ⟨cos (angle / 2), 0, 0, sin (angle / 2)⟩ := by
  rw [turn, Quaternion.ofAxisAngle_eq axis.norm_unit]
  cases axis <;> simp [unit, Quaternion.ofParts, Vec3.scale, Vec3.map]

theorem cos_eq (angle : ℝ) : cos angle = 1 - 2 * sin (angle / 2) ^ 2 := by
  rw [← Real.cos_two_mul_eq_one_sub, mul_div_cancel₀ _ two_ne_zero]

theorem sin_eq (angle : ℝ) : sin angle = 2 * sin (angle / 2) * cos (angle / 2) := by
  rw [← Real.sin_two_mul, mul_div_cancel₀ _ two_ne_zero]

/-- A turn by its matrix, in which the half angles make up the angle. -/
theorem rotate_turn (axis : Axis) (angle : ℝ) (v : Vec3 ℝ) : (axis.turn angle).rotate v =
    match axis with
    | roll => ⟨v.x, cos angle * v.y - sin angle * v.z, sin angle * v.y + cos angle * v.z⟩
    | pitch => ⟨cos angle * v.x + sin angle * v.z, v.y, cos angle * v.z - sin angle * v.x⟩
    | yaw => ⟨cos angle * v.x - sin angle * v.y, sin angle * v.x + cos angle * v.y, v.z⟩ := by
  rw [Quaternion.rotate_eq (Quaternion.dot_self (norm_turn axis angle)), turn_eq, cos_eq angle,
    sin_eq angle]
  cases axis <;> ext <;> simp only [Quaternion.toDcm, Numeric.two_eq, Numeric.one_eq] <;> ring

end Axis

namespace Euler
open Axis (turn norm_turn rotateBack_turn turn_eq rotate_turn cos_eq sin_eq)

theorem toQuaternion_eq (e : Euler ℝ) :
    e.toQuaternion = turn .yaw e.yaw * turn .pitch e.pitch * turn .roll e.roll := by
  apply Quaternion.normalize_of_norm_eq_one
  change (turn .yaw e.yaw * turn .pitch e.pitch * turn .roll e.roll).norm = 1
  rw [Quaternion.norm_mul, Quaternion.norm_mul, norm_turn, norm_turn, norm_turn, one_mul, one_mul]

/-- Where the nose points does not depend on the roll. -/
theorem rotate_nose (e : Euler ℝ) : e.toQuaternion.rotate ⟨1, 0, 0⟩ =
    ⟨cos e.pitch * cos e.yaw, cos e.pitch * sin e.yaw, -sin e.pitch⟩ := by
  rw [toQuaternion_eq, Quaternion.rotate_mul, Quaternion.rotate_mul]
  simp only [rotate_turn]
  ext <;> ring

/-- How the vertical is seen from the body does not depend on the yaw. -/
theorem rotateBack_vertical (e : Euler ℝ) : e.toQuaternion.rotateBack ⟨0, 0, 1⟩ =
    ⟨-sin e.pitch, cos e.pitch * sin e.roll, cos e.pitch * cos e.roll⟩ := by
  rw [toQuaternion_eq, Quaternion.rotateBack_mul, Quaternion.rotateBack_mul]
  simp only [rotateBack_turn, rotate_turn, Real.cos_neg, Real.sin_neg]
  ext <;> ring

/-- Bringing a sine into range makes no difference to its angle. -/
theorem arcsin_clamp (s : ℝ) : Real.arcsin (Numeric.clamp (-1) 1 s) = Real.arcsin s := by
  simp only [Numeric.clamp, Numeric.lt_exact]
  split_ifs with hlow hhigh
  · rw [Real.arcsin_neg_one, Real.arcsin_of_le_neg_one hlow.le]
  · rw [Real.arcsin_one, Real.arcsin_of_one_le hhigh.le]
  · rfl

theorem rotate_nose_eq (h : q.norm = 1) :
    q.rotate ⟨1, 0, 0⟩ = ⟨q.toDcm.row0.x, q.toDcm.row1.x, q.toDcm.row2.x⟩ := by
  rw [Quaternion.rotate_eq (Quaternion.dot_self h)]
  ext <;> ring

/-- The angles of an attitude, by its nose and its vertical. -/
theorem ofQuaternion_eq (h : q.norm = 1) : ofQuaternion q =
    ⟨Complex.arg ⟨(q.rotateBack ⟨0, 0, 1⟩).z, (q.rotateBack ⟨0, 0, 1⟩).y⟩,
      Real.arcsin (-(q.rotate ⟨1, 0, 0⟩).z),
      Complex.arg ⟨(q.rotate ⟨1, 0, 0⟩).x, (q.rotate ⟨1, 0, 0⟩).y⟩⟩ := by
  have hdot := Quaternion.dot_self h
  have hvertical : q.rotateBack ⟨0, 0, 1⟩ = q.toDcm.row2 := by
    rw [Quaternion.rotateBack_eq, Quaternion.rotate_eq (Quaternion.dot_conjugate hdot)]
    ext <;> simp only [Quaternion.toDcm, Quaternion.conjugate] <;> ring
  rw [ofQuaternion, Quaternion.normalize_of_norm_eq_one h, rotate_nose_eq h, hvertical,
    ← arcsin_clamp]
  rfl

/-- The point of a circle at the angle of a point is that point. -/
theorem polar (hs : 0 ≤ s) (h : x ^ 2 + y ^ 2 = s ^ 2) :
    s * cos (Complex.arg ⟨x, y⟩) = x ∧ s * sin (Complex.arg ⟨x, y⟩) = y := by
  have hnorm : ‖(⟨x, y⟩ : ℂ)‖ = s := by
    rw [Complex.norm_def, Complex.normSq_mk, ← sq, ← sq, h, Real.sqrt_sq hs]
  rw [← hnorm]
  exact ⟨Complex.norm_mul_cos_arg ⟨x, y⟩, Complex.norm_mul_sin_arg ⟨x, y⟩⟩

theorem arg_circle (hs : 0 < s) (h : angle ∈ Ioo (-π) π) :
    Complex.arg ⟨s * cos angle, s * sin angle⟩ = angle := by
  have hpoint : (⟨s * cos angle, s * sin angle⟩ : ℂ) =
      s * (Complex.cos angle + Complex.sin angle * Complex.I) := by
    rw [← Complex.ofReal_cos, ← Complex.ofReal_sin]
    apply Complex.ext <;> simp [-Complex.ofReal_cos, -Complex.ofReal_sin]
  rw [hpoint, Complex.arg_mul_cos_add_sin_mul_I hs ⟨h.1, h.2.le⟩]

/-- Where the nose is not vertical, the angles of an attitude are those that gave it, but for whole
turns. -/
theorem ofQuaternion_toQuaternion (h : e.pitch ∈ Ioo (-(π / 2)) (π / 2)) :
    ofQuaternion e.toQuaternion =
      ⟨Complex.arg ⟨cos e.pitch * cos e.roll, cos e.pitch * sin e.roll⟩, e.pitch,
        Complex.arg ⟨cos e.pitch * cos e.yaw, cos e.pitch * sin e.yaw⟩⟩ := by
  have hnorm : e.toQuaternion.norm = 1 := Quaternion.norm_normalize _
  rw [ofQuaternion_eq hnorm, rotate_nose, rotateBack_vertical]
  simp only [neg_neg, Real.arcsin_sin h.1.le h.2.le]

/-- Angles a whole turn apart give the same attitude, up to its sign. -/
theorem roll_turn_congr (hcos : cos x = cos y) (hsin : sin x = sin y) :
    turn .roll x = turn .roll y ∨ turn .roll x = -turn .roll y := by
  -- The points at the half angles have the same square.
  have hsq : (⟨cos (x / 2), sin (x / 2)⟩ : ℂ) ^ 2 = ⟨cos (y / 2), sin (y / 2)⟩ ^ 2 := by
    have hx := Real.sin_sq_add_cos_sq (x / 2)
    have hy := Real.sin_sq_add_cos_sq (y / 2)
    rw [cos_eq x, cos_eq y] at hcos
    rw [sin_eq x, sin_eq y] at hsin
    rw [sq, sq]
    apply Complex.ext
    · simp only [Complex.mul_re]
      linear_combination hx - hy + hcos
    · simp only [Complex.mul_im]
      linear_combination hsin
  simp only [turn_eq]
  rcases sq_eq_sq_iff_eq_or_eq_neg.mp hsq with heq | heq
  · left
    obtain ⟨hw, hx⟩ := Complex.mk.inj heq
    rw [hw, hx]
  · right
    have hw : cos (x / 2) = -cos (y / 2) := congrArg Complex.re heq
    have hx : sin (x / 2) = -sin (y / 2) := congrArg Complex.im heq
    rw [hw, hx]
    exact Quaternion.ext rfl rfl neg_zero.symm neg_zero.symm

/-- What leaves the nose where it is is a roll. -/
theorem exists_roll_turn (h : q.norm = 1) (hnose : q.rotate ⟨1, 0, 0⟩ = ⟨1, 0, 0⟩) :
    ∃ angle, q = turn .roll angle := by
  have hdot := Quaternion.dot_self h
  rw [Quaternion.rotate_eq hdot] at hnose
  have hx := congrArg Vec3.x hnose
  simp only [Quaternion.toDcm, Numeric.two_eq, Numeric.one_eq] at hx
  have hy : q.y = 0 := by nlinarith [mul_self_nonneg q.y, mul_self_nonneg q.z]
  have hz : q.z = 0 := by nlinarith [mul_self_nonneg q.y, mul_self_nonneg q.z]
  rw [Quaternion.dot, hy, hz] at hdot
  obtain ⟨hw, hx⟩ := polar (x := q.w) (y := q.x) zero_le_one (by linear_combination hdot)
  refine ⟨2 * Complex.arg ⟨q.w, q.x⟩, ?_⟩
  simp only [turn_eq, mul_div_cancel_left₀ _ (two_ne_zero' ℝ)]
  rw [one_mul] at hw hx
  exact Quaternion.ext hw.symm hx.symm hy hz

/-- An attitude is reached by turning to where its nose points, and then by a roll. -/
theorem exists_roll (h : q.norm = 1) {yaw pitch : ℝ}
    (hnose : q.rotate ⟨1, 0, 0⟩ = ⟨cos pitch * cos yaw, cos pitch * sin yaw, -sin pitch⟩) :
    ∃ roll, q = toQuaternion ⟨roll, pitch, yaw⟩ := by
  have hheading : (turn .yaw yaw * turn .pitch pitch).norm = 1 := by
    rw [Quaternion.norm_mul, norm_turn, norm_turn, one_mul]
  have hdot := Quaternion.dot_self hheading
  obtain ⟨p, rfl⟩ : ∃ p, turn .yaw yaw * turn .pitch pitch * p = q :=
    ⟨_, Quaternion.mul_conjugate_mul hdot q⟩
  rw [Quaternion.norm_mul, hheading, one_mul] at h
  have hpnose : p.rotate ⟨1, 0, 0⟩ = ⟨1, 0, 0⟩ := by
    have hback : (turn .yaw yaw * turn .pitch pitch).rotate (p.rotate ⟨1, 0, 0⟩) =
        (turn .yaw yaw * turn .pitch pitch).rotate ⟨1, 0, 0⟩ := by
      rw [← Quaternion.rotate_mul, hnose, Quaternion.rotate_mul]
      simp only [rotate_turn]
      ext <;> ring
    rw [← Quaternion.rotateBack_rotate hdot (p.rotate _), hback, Quaternion.rotateBack_rotate hdot]
  obtain ⟨roll, rfl⟩ := exists_roll_turn h hpnose
  exact ⟨roll, (toQuaternion_eq ⟨roll, pitch, yaw⟩).symm⟩

/-- The nose at its pitch and yaw. -/
theorem rotate_nose_polar (h : q.norm = 1) : q.rotate ⟨1, 0, 0⟩ =
    ⟨cos (ofQuaternion q).pitch * cos (ofQuaternion q).yaw,
      cos (ofQuaternion q).pitch * sin (ofQuaternion q).yaw, -sin (ofQuaternion q).pitch⟩ := by
  have hunit : (q.rotate ⟨1, 0, 0⟩).norm = 1 :=
    (Quaternion.norm_rotate h _).trans (Vec3.norm_eq_one (by norm_num))
  rw [ofQuaternion_eq h]
  generalize q.rotate ⟨1, 0, 0⟩ = nose at hunit
  have hsum : nose.x * nose.x + nose.y * nose.y + nose.z * nose.z = 1 := Real.sqrt_eq_one.mp hunit
  have hle : nose.z ^ 2 ≤ 1 := by nlinarith [mul_self_nonneg nose.x, mul_self_nonneg nose.y]
  obtain ⟨hlow, hhigh⟩ := abs_le.mp ((sq_le_one_iff_abs_le_one _).mp hle)
  obtain ⟨hx, hy⟩ := polar (s := cos (Real.arcsin (-nose.z))) (x := nose.x) (y := nose.y)
    (Real.cos_arcsin_nonneg _) (by
      rw [Real.cos_arcsin, Real.sq_sqrt (by linarith)]
      linear_combination hsum)
  rw [hx, hy, Real.sin_arcsin (by linarith) (by linarith), neg_neg]

theorem pitch_mem (h : q.norm = 1) (hcorner : |q.toDcm.row2.x| < 1) :
    (ofQuaternion q).pitch ∈ Ioo (-(π / 2)) (π / 2) := by
  obtain ⟨hlow, hhigh⟩ := abs_lt.mp hcorner
  rw [ofQuaternion_eq h, rotate_nose_eq h]
  exact ⟨Real.neg_pi_div_two_lt_arcsin.mpr (by linarith),
    Real.arcsin_lt_pi_div_two.mpr (by linarith)⟩

/-- The roll of an attitude is the one that gave it, but for whole turns. -/
theorem roll_toQuaternion (h : e.pitch ∈ Ioo (-(π / 2)) (π / 2)) :
    cos (ofQuaternion e.toQuaternion).roll = cos e.roll ∧
      sin (ofQuaternion e.toQuaternion).roll = sin e.roll := by
  have hpos := Real.cos_pos_of_mem_Ioo h
  rw [ofQuaternion_toQuaternion h]
  obtain ⟨hcos, hsin⟩ := polar (x := cos e.pitch * cos e.roll) (y := cos e.pitch * sin e.roll)
    hpos.le (by linear_combination cos e.pitch ^ 2 * Real.sin_sq_add_cos_sq e.roll)
  exact ⟨mul_left_cancel₀ hpos.ne' hcos, mul_left_cancel₀ hpos.ne' hsin⟩

/-- The angles of an attitude give it back, or its negative. -/
theorem toQuaternion_ofQuaternion (h : q.norm = 1)
    (hpitch : (ofQuaternion q).pitch ∈ Ioo (-(π / 2)) (π / 2)) :
    (ofQuaternion q).toQuaternion = q ∨ (ofQuaternion q).toQuaternion = -q := by
  obtain ⟨roll, hq⟩ := exists_roll h (rotate_nose_polar h)
  obtain ⟨hcos, hsin⟩ :=
    roll_toQuaternion (e := ⟨roll, (ofQuaternion q).pitch, (ofQuaternion q).yaw⟩) hpitch
  rw [← hq] at hcos hsin
  rw [toQuaternion_eq] at hq ⊢
  generalize turn .yaw _ * turn .pitch _ = heading at hq ⊢
  rcases roll_turn_congr hcos hsin with heq | heq
  · left
    rw [heq, hq]
  · right
    rw [heq, hq]
    apply Quaternion.hamilton_injective
    simp

/-- Angles in range come back from their attitude, and an attitude whose nose is not vertical comes
back, up to its sign, from its angles. -/
theorem angles_round_trip :
    (∀ e : Euler ℝ, e.roll ∈ Ioo (-π) π → e.pitch ∈ Ioo (-(π / 2)) (π / 2) →
      e.yaw ∈ Ioo (-π) π → ofQuaternion e.toQuaternion = e) ∧
    ∀ q : Quaternion ℝ, q.norm = 1 → |q.toDcm.row2.x| < 1 →
      ((ofQuaternion q).toQuaternion = q ∨ (ofQuaternion q).toQuaternion = -q) ∧
        (ofQuaternion q).pitch ∈ Ioo (-(π / 2)) (π / 2) := by
  constructor
  · intro e hroll hpitch hyaw
    have hpos := Real.cos_pos_of_mem_Ioo hpitch
    rw [ofQuaternion_toQuaternion hpitch, arg_circle hpos hroll, arg_circle hpos hyaw]
  · intro q h hcorner
    have hpitch := pitch_mem h hcorner
    exact ⟨toQuaternion_ofQuaternion h hpitch, hpitch⟩

/-- An attitude with a nose far below the horizon. -/
noncomputable def dive : Quaternion ℝ :=
  ⟨-1 / (5 : ℕ), (2 : ℕ) / (5 : ℕ), (2 : ℕ) / (5 : ℕ), (4 : ℕ) / (5 : ℕ)⟩

theorem dive_round_trip :
    ofQuaternion (toQuaternion ⟨1, -1, 2⟩) = (⟨1, -1, 2⟩ : Euler ℝ) ∧ dive.norm = 1 ∧
      dive.toDcm.row2.x = 4 / 5 ∧
      ((ofQuaternion dive).toQuaternion = dive ∨ (ofQuaternion dive).toQuaternion = -dive) := by
  have hpi := Real.pi_gt_three
  have hnorm : dive.norm = 1 := Quaternion.norm_eq_one (by norm_num [Quaternion.dot, dive])
  have hcorner : dive.toDcm.row2.x = 4 / 5 := by
    norm_num [dive, Quaternion.toDcm, Numeric.two_eq]
  obtain ⟨hangles, hattitudes⟩ := angles_round_trip
  refine ⟨hangles ⟨1, -1, 2⟩ ?_ ?_ ?_, hnorm, hcorner, (hattitudes dive hnorm ?_).1⟩
  · constructor <;> dsimp only <;> linarith
  · constructor <;> dsimp only <;> linarith
  · constructor <;> dsimp only <;> linarith
  · rw [hcorner]
    norm_num [abs_lt]

end Euler
end Strapdown
