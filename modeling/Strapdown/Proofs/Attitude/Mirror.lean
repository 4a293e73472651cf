import Strapdown.Proofs.Attitude.ErrorSigns

/-!
Inverse rotations. The rotation by the opposite vector is the conjugate, and the rotation vector of
the conjugate is the opposite one. Rounding does not disturb this: both of a pair go the same way
through every branch, with the same lengths. Only where the identity stands in for either, zeros may
differ in sign.
-/
namespace Strapdown
open Binary

variable {p q : Quaternion Float32}

namespace Vec3

theorem scale_neg (v : Vec3 Float32) (s : Float32) : (-v).scale s = -v.scale s := by
  apply Vec3.ext <;> exact Binary.neg_mul _ _

theorem divide_neg (v : Vec3 Float32) (s : Float32) : (-v).divide s = -v.divide s := by
  apply Vec3.ext <;> exact Binary.neg_div _ _

theorem length_neg (v : Vec3 Float32) : (-v).length = v.length := by
  refine (SquareNorm.vec3 .native).length_congr ?_ (Vec3.norm_neg v) fun s => ?_
  · change [(-v.x).abs, (-v.y).abs, (-v.z).abs] = _
    simp only [abs_neg_eq]
    rfl
  · change ((-v).divide s).norm = (v.divide s).norm
    rw [divide_neg, Vec3.norm_neg]

end Vec3

namespace Quaternion

/-- Equal in each component, in the order of binary32. -/
def Equal (p q : Quaternion Float32) : Prop :=
  List.Forall₂ (fun a b => (a == b) = true) p.toList q.toList

theorem equal_of_alike (h : p.Alike q) (hfin : p.isFinite = true) : p.Equal q :=
  beq_of_forall₂ h.toList (List.all_eq_true.mp hfin)

/-! The conjugate of what is normalized. -/

theorem ofParts_neg (w : Float32) (v : Vec3 Float32) :
    ofParts w (-v) = (ofParts w v).conjugate := rfl

theorem divide_conjugate (q : Quaternion Float32) (s : Float32) :
    q.conjugate.divide s = (q.divide s).conjugate := by
  apply Quaternion.ext
  · rfl
  all_goals exact Binary.neg_div _ _

theorem norm_conjugate (q : Quaternion Float32) : q.conjugate.norm = q.norm := by
  change (((-q.x) * (-q.x) + (-q.z) * (-q.z)) + ((-q.y) * (-q.y) + q.w * q.w)).sqrt = _
  simp only [Binary.neg_mul_neg]
  rfl

theorem length_conjugate (q : Quaternion Float32) : q.conjugate.length = q.length := by
  refine (SquareNorm.quaternion .native).length_congr ?_ (norm_conjugate q) fun s => ?_
  · change [q.w.abs, (-q.x).abs, (-q.y).abs, (-q.z).abs] = _
    simp only [abs_neg_eq]
    rfl
  · change (q.conjugate.divide s).norm = (q.divide s).norm
    rw [divide_conjugate, norm_conjugate]

theorem normalize_conjugate (q : Quaternion Float32) :
    if degenerate q.length then q.conjugate.normalize = identity ∧ q.normalize = identity
    else q.conjugate.normalize = q.normalize.conjugate := by
  unfold normalize
  rw [length_conjugate]
  split
  · exact ⟨rfl, rfl⟩
  · exact divide_conjugate q q.length

theorem alike_identity_conjugate : (identity : Quaternion Float32).Alike identity.conjugate where
  w := .refl _
  x := .inr (by decide +kernel)
  y := .inr (by decide +kernel)
  z := .inr (by decide +kernel)

theorem alike_normalize_conjugate (q : Quaternion Float32) :
    q.conjugate.normalize.Alike q.normalize.conjugate := by
  have hunits := q.normalize_conjugate
  split at hunits
  · rw [hunits.1, hunits.2]
    exact alike_identity_conjugate
  · rw [hunits]
    exact .refl _

theorem exp_def (f : Elementary) (v : Vec3 Float32) :
    @exp _ f.numeric v =
      if degenerate v.length then (ofParts 1.0 (v.scale 0.5)).normalize
      else ofParts (f.cos (v.length * 0.5)) (v.scale (f.sin (v.length * 0.5) / v.length)) := rfl

theorem alike_exp_neg (f : Elementary) (v : Vec3 Float32) :
    (@exp _ f.numeric (-v)).Alike (@exp _ f.numeric v).conjugate := by
  rw [exp_def, exp_def, Vec3.length_neg]
  split
  · rw [Vec3.scale_neg, ofParts_neg]
    exact alike_normalize_conjugate _
  · rw [Vec3.scale_neg, ofParts_neg]
    exact .refl _

/-! The rotation vector of the conjugate. The short way is told from the scalar part, which is the
same for both. -/

theorem shortWay_conjugate (q : Quaternion Float32) :
    q.conjugate.shortWay = q.shortWay.conjugate := by
  by_cases h : q.w < 0.0
  · rw [shortWay_of_lt h, shortWay_of_lt (q := q.conjugate) h]
    rfl
  · rw [shortWay_of_not_lt h, shortWay_of_not_lt (q := q.conjugate) h]

theorem turnFactor_conjugate (f : Elementary) (q : Quaternion Float32) :
    turnFactor f q.conjugate = turnFactor f q := by
  have hsine : q.conjugate.vec.norm = q.vec.norm := Vec3.norm_neg q.vec
  rw [turnFactor, turnFactor, hsine]
  rfl

theorem alike_log_conjugate (f : Elementary) (q : Quaternion Float32) :
    (@log _ f.numeric q.conjugate).Alike (-@log _ f.numeric q) := by
  have hunits := q.normalize_conjugate
  rw [log_eq_scale, log_eq_scale]
  split at hunits
  · have hfactor : turnFactor f (identity : Quaternion Float32).shortWay = 2.0 :=
      if_pos (by decide +kernel)
    rw [hunits.1, hunits.2, hfactor]
    exact ⟨.inr (by decide +kernel), .inr (by decide +kernel), .inr (by decide +kernel)⟩
  · rw [hunits, shortWay_conjugate, turnFactor_conjugate]
    change ((-q.normalize.shortWay.vec).scale _).Alike _
    rw [Vec3.scale_neg]
    exact .refl _

/-- Inverse rotations are mirror images, whatever they are made from. -/
theorem mirror_images (f : Elementary) :
    (∀ v, (@exp _ f.numeric (-v)).Alike (@exp _ f.numeric v).conjugate) ∧
    (∀ q, (@log _ f.numeric q.conjugate).Alike (-@log _ f.numeric q)) ∧
    (f.InRange → (∀ v, (@exp _ f.numeric (-v)).Equal (@exp _ f.numeric v).conjugate) ∧
      ∀ q, (@log _ f.numeric q.conjugate).Equal (-@log _ f.numeric q)) := by
  refine ⟨alike_exp_neg f, alike_log_conjugate f, fun hf => ⟨?_, ?_⟩⟩
  · intro v
    exact equal_of_alike (alike_exp_neg f v) (isFinite_exp hf (-v))
  · intro q
    exact Vec3.equal_of_alike (alike_log_conjugate f q) (isFinite_log hf q.conjugate)

/-- A turn of two radians, a vector that is too long for the range and one that is not a number; a
quaternion just beyond half a turn, which is flipped to the short way, and one that is rescaled. -/
theorem mirror_images_of_branches :
    let f := Elementary.quarterTurns
    f.InRange ∧
    @exp _ f.numeric ⟨0.0, 2.0, 0.0⟩ = ⟨0.5403023, 0.0, 0.84147098, 0.0⟩ ∧
    (@exp _ f.numeric (-⟨0.0, 2.0, 0.0⟩)).Equal (@exp _ f.numeric ⟨0.0, 2.0, 0.0⟩).conjugate ∧
    (@exp _ f.numeric (-⟨3e38, -3e38, 0.0⟩)).Equal
      (@exp _ f.numeric ⟨3e38, -3e38, 0.0⟩).conjugate ∧
    (@exp _ f.numeric (-⟨0.0 / 0.0, 1.0, 0.0⟩)).Equal
      (@exp _ f.numeric ⟨0.0 / 0.0, 1.0, 0.0⟩).conjugate ∧
    (@log _ f.numeric (conjugate ⟨-1e-30, 0.6, 0.0, 0.8⟩)).Equal
      (-@log _ f.numeric ⟨-1e-30, 0.6, 0.0, 0.8⟩) ∧
    @log _ f.numeric ⟨-1e-30, 0.6, 0.0, 0.8⟩ = ⟨-1.8849558, -0.0, -2.5132742⟩ ∧
    (@log _ f.numeric (conjugate ⟨0.0, 3e38, 0.0, 0.0⟩)).Equal
      (-@log _ f.numeric ⟨0.0, 3e38, 0.0, 0.0⟩) ∧
    @log _ f.numeric ⟨0.0, 3e38, 0.0, 0.0⟩ = ⟨halfTurn, 0.0, 0.0⟩ := by
  intro f
  obtain ⟨-, -, hequal⟩ := mirror_images f
  obtain ⟨hexp, hlog⟩ := hequal Elementary.inRange_quarterTurns
  exact ⟨Elementary.inRange_quarterTurns, by decide +kernel, hexp _, hexp _, hexp _, hlog _,
    by decide +kernel, hlog _, by decide +kernel⟩

end Quaternion
end Strapdown
