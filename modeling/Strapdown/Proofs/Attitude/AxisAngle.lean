import Strapdown.Proofs.Attitude.Domains

/-!
Rotations about an axis. Every axis gives an attitude, the degenerate ones the identity, as long as
the angle is a number. Only the axis is looked at: an angle that is not a number leaves no component
of the result that is one.
-/
namespace Strapdown
open Binary
open Float.Model (UnpackedFloat)

variable {f : Elementary} {axis : Vec3 Float32} {angle : Float32}

namespace Binary

theorem isNaN_mul {b : Float32} (h : b.isNaN = true) (a : Float32) : (a * b).isNaN = true := by
  change (ofFloat32 b).isNaN = true at h
  change (ofFloat32 (a * b)).isNaN = true
  rw [ofFloat32_mul]
  cases hb : ofFloat32 b with
  | notANumber => cases ofFloat32 a <;> exact congrArg UnpackedFloat.isNaN (store_notANumber _)
  | _ => rw [hb] at h; cases h

/-- What is near the components of a unit vector, times a number of magnitude at most one. -/
theorem sumSq_map_mul_near {xs : List Float32} {s : Float32} (hlen : xs.length ≤ 4)
    (hxs : ∀ x ∈ xs, x.isFinite = true) (hone : |sumSq xs - 1| ≤ 2 / 10 ^ 6)
    (hs : s.isFinite = true) (hle : |toRat s| ≤ 1) :
    (∀ y ∈ xs.map (· * s), y.isFinite = true) ∧
      |sumSq (xs.map (· * s)) - toRat s ^ 2| ≤ 3 / 10 ^ 6 := by
  have hlen' : (xs.length : ℚ) ≤ 4 := by exact_mod_cast hlen
  have hsq : toRat s ^ 2 ≤ 1 := (sq_le_one_iff_abs_le_one _).mpr hle
  have hprod (x : Float32) (hx : x ∈ xs) : |toRat x * toRat s| ≤ 2 := by
    have hx2 : |toRat x| ≤ 2 := by
      apply abs_le_of_sq_le_sq _ zero_le_two
      linarith [sq_le_sumSq hx, (abs_le.mp hone).2]
    rw [abs_mul]
    exact (mul_le_mul hx2 hle (abs_nonneg _) zero_le_two).trans_eq (mul_one 2)
  have hfin (x : Float32) (hx : x ∈ xs) : (x * s).isFinite = true :=
    isFinite_mul (hxs x hx) hs ((hprod x hx).trans (by norm_num))
  constructor
  · intro y hy
    obtain ⟨x, hx, rfl⟩ := List.mem_map.mp hy
    exact hfin x hx
  · have hsum : |sumSq (xs.map (· * s)) - sumSq xs * toRat s ^ 2| ≤
        3 / 2 ^ 24 * (sumSq xs * toRat s ^ 2) + xs.length * (5 / 2 ^ 150) :=
      sumSq_map_near fun x hx => sq_near (toRat_mul (hfin x hx)) (hprod x hx)
    have hscaled : |sumSq xs * toRat s ^ 2 - toRat s ^ 2| ≤ 2 / 10 ^ 6 := by
      calc |sumSq xs * toRat s ^ 2 - toRat s ^ 2| = |sumSq xs - 1| * toRat s ^ 2 := by
            rw [← sub_one_mul, abs_mul, abs_of_nonneg (sq_nonneg (toRat s))]
        _ ≤ 2 / 10 ^ 6 * 1 := mul_le_mul hone hsq (sq_nonneg _) (by norm_num)
        _ = 2 / 10 ^ 6 := mul_one _
    have htwo : sumSq xs * toRat s ^ 2 ≤ 1 + 2 / 10 ^ 6 := by
      linarith [(abs_le.mp hscaled).2]
    have hrest : (xs.length : ℚ) * (5 / 2 ^ 150) ≤ 4 * (5 / 2 ^ 150) := by gcongr
    calc |sumSq (xs.map (· * s)) - toRat s ^ 2|
        ≤ |sumSq (xs.map (· * s)) - sumSq xs * toRat s ^ 2| +
          |sumSq xs * toRat s ^ 2 - toRat s ^ 2| := abs_sub_le _ _ _
      _ ≤ 3 / 10 ^ 6 := by
        norm_num at *
        linarith

end Binary

/-- Sines and cosines are undefined where the argument is not a number. -/
structure Elementary.UndefinedBeyond (f : Elementary) : Prop where
  sin : ∀ x : Float32, x.isFinite = false → (f.sin x).isNaN = true
  cos : ∀ x : Float32, x.isFinite = false → (f.cos x).isNaN = true

namespace Quaternion

theorem ofAxisAngle_of_degenerate
    (h : @degenerate _ f.numeric (@Vec3.length _ f.numeric axis) = true) (angle : Float32) :
    @ofAxisAngle _ f.numeric axis angle = @identity _ f.numeric :=
  if_pos h

theorem ofAxisAngle_of_counts
    (h : @degenerate _ f.numeric (@Vec3.length _ f.numeric axis) = false) (angle : Float32) :
    @ofAxisAngle _ f.numeric axis angle = ofParts (f.cos (angle * 0.5))
      ((@Vec3.divide _ f.numeric axis (@Vec3.length _ f.numeric axis)).map
        (· * f.sin (angle * 0.5))) := by
  simp only [ofAxisAngle, h]
  rfl

theorem isUnit_ofAxisAngle (hf : f.Circular)
    (h : @degenerate _ f.numeric (@Vec3.length _ f.numeric axis) = false)
    (hangle : angle.isFinite = true) :
    IsUnit (1 / 10 ^ 5) (@ofAxisAngle _ f.numeric axis angle) := by
  have hhalf := isFinite_half_mul hangle
  obtain ⟨haxis, hone⟩ := divide_near (SquareNorm.vec3 f) h
  obtain ⟨hvec, hnear⟩ := sumSq_map_mul_near (by simp [SquareNorm.vec3, Vec3.toList]) haxis hone
    (hf.isFinite_sin _ hhalf) (hf.abs_sin_le_one _ hhalf)
  rw [ofAxisAngle_of_counts h]
  exact isUnit_mono (isUnit_ofParts (hf.isFinite_cos _ hhalf) hvec hnear (hf.near_one _ hhalf))
    (by norm_num)

theorem isNaN_ofAxisAngle (hf : f.UndefinedBeyond)
    (h : @degenerate _ f.numeric (@Vec3.length _ f.numeric axis) = false)
    (hangle : angle.isFinite = false) :
    ∀ x ∈ (@ofAxisAngle _ f.numeric axis angle).toList, x.isNaN = true := by
  have hhalf : (angle * 0.5).isFinite = false := by
    by_contra hne
    rw [Bool.not_eq_false] at hne
    rw [(isFinite_of_mul hne).1] at hangle
    cases hangle
  have hsin := hf.sin _ hhalf
  rw [ofAxisAngle_of_counts h]
  simp only [toList, ofParts, Vec3.map, List.forall_mem_cons]
  exact ⟨hf.cos _ hhalf, isNaN_mul hsin _, isNaN_mul hsin _, isNaN_mul hsin _, by simp⟩

/-- An axis and an angle make an attitude, except where the axis has a direction and the angle is
not a number: then the result is no attitude, and none of its components is a number. -/
theorem unit_unless_angle_undefined (f : Elementary) (axis : Vec3 Float32) (angle : Float32) :
    let undirected := @degenerate _ f.numeric (@Vec3.length _ f.numeric axis)
    let q := @ofAxisAngle _ f.numeric axis angle
    (undirected = true → q = @identity _ f.numeric) ∧
    (f.Circular → undirected = true ∨ angle.isFinite = true → q.IsUnit (1 / 10 ^ 5)) ∧
    (f.UndefinedBeyond → undirected = false → angle.isFinite = false →
      (∀ x ∈ q.toList, x.isNaN = true) ∧ ∀ tolerance, ¬ q.IsUnit tolerance) := by
  intro undirected q
  refine ⟨fun h => ofAxisAngle_of_degenerate h angle, ?_, ?_⟩
  · intro hf hgood
    cases h : undirected with
    | true =>
      have hq : q = @identity _ f.numeric := ofAxisAngle_of_degenerate h angle
      rw [hq]
      exact isUnit_mono isUnit_identity (by norm_num)
    | false =>
      rw [h] at hgood
      exact isUnit_ofAxisAngle hf h (hgood.resolve_left Bool.false_ne_true)
  · intro hf h hangle
    have hnan : ∀ x ∈ q.toList, x.isNaN = true := isNaN_ofAxisAngle hf h hangle
    refine ⟨hnan, fun tolerance hunit => ?_⟩
    have hw := hnan q.w List.mem_cons_self
    rw [isNaN_of_isFinite (hunit.isFinite q.w List.mem_cons_self)] at hw
    cases hw

/-- The functions at quarter turns, undefined for what is not a number. -/
def finiteQuarterTurns : Elementary where
  sin x := if x.isFinite then Elementary.quarterTurns.sin x else 0.0 / 0.0
  cos x := if x.isFinite then Elementary.quarterTurns.cos x else 0.0 / 0.0
  asin := Elementary.quarterTurns.asin
  acos := Elementary.quarterTurns.acos
  atan2 := Elementary.quarterTurns.atan2

theorem circular_finiteQuarterTurns : finiteQuarterTurns.Circular := by
  refine Elementary.circular_of_points fun x hx => ?_
  simp only [finiteQuarterTurns, Elementary.quarterTurns, hx, if_true]
  split_ifs
  · exact .inl ⟨rfl, rfl⟩
  · exact .inr ⟨rfl, rfl⟩

theorem undefinedBeyond_finiteQuarterTurns : finiteQuarterTurns.UndefinedBeyond := by
  have hnan : (0.0 / 0.0 : Float32).isNaN = true := by decide +kernel
  constructor
  all_goals
    intro x hx
    simp only [finiteQuarterTurns, hx]
    exact hnan

/-- Two radians about an axis near the end of the range, any angle about no axis, and an undefined
angle about an axis that counts. -/
theorem attitudes_of_axes_and_angles :
    finiteQuarterTurns.Circular ∧ finiteQuarterTurns.UndefinedBeyond ∧
    (@ofAxisAngle _ finiteQuarterTurns.numeric ⟨0.0, 3e38, 1.0⟩ 2.0).IsUnit (1 / 10 ^ 5) ∧
    @ofAxisAngle _ finiteQuarterTurns.numeric ⟨0.0, 1e-30, 0.0 / 0.0⟩ (0.0 / 0.0) =
      ⟨1.0, 0.0, 0.0, 0.0⟩ ∧
    ∀ x ∈ (@ofAxisAngle _ finiteQuarterTurns.numeric ⟨1.0, 0.0, 0.0⟩ (0.0 / 0.0)).toList,
      x.isNaN = true := by
  obtain ⟨-, hunit, -⟩ := unit_unless_angle_undefined finiteQuarterTurns ⟨0.0, 3e38, 1.0⟩ 2.0
  obtain ⟨hnone, -⟩ :=
    unit_unless_angle_undefined finiteQuarterTurns ⟨0.0, 1e-30, 0.0 / 0.0⟩ (0.0 / 0.0)
  obtain ⟨-, -, hlost⟩ :=
    unit_unless_angle_undefined finiteQuarterTurns ⟨1.0, 0.0, 0.0⟩ (0.0 / 0.0)
  have hx := hlost undefinedBeyond_finiteQuarterTurns (by decide +kernel) (by decide +kernel)
  exact ⟨circular_finiteQuarterTurns, undefinedBeyond_finiteQuarterTurns,
    hunit circular_finiteQuarterTurns (.inr (by decide +kernel)), hnone (by decide +kernel), hx.1⟩

end Quaternion
end Strapdown
