import Strapdown.Proofs.Attitude.Antipodal
import Strapdown.Proofs.Binary.Largest

/-!
The sign of an attitude makes no difference to its error against another one, with one exception.
The two ways round are equally long where half a turn remains, and there the sign decides.
-/
namespace Strapdown
open Binary

variable {f : Elementary} {u v : Vec3 Float32} {p q c c' d d' : Quaternion Float32}

namespace Vec3

/-- Each component is alike but for the sign. -/
def Opposite (u v : Vec3 Float32) : Prop := u.Alike (-v)

/-- Equal in each component, in the order of binary32. -/
def Equal (u v : Vec3 Float32) : Prop :=
  List.Forall₂ (fun a b => (a == b) = true) u.toList v.toList

theorem opposite_scale (h : u.Opposite v) (s : Float32) : (u.scale s).Opposite (v.scale s) :=
  ⟨opposite_mul_left h.x (.refl s), opposite_mul_left h.y (.refl s),
    opposite_mul_left h.z (.refl s)⟩

protected theorem norm_neg (v : Vec3 Float32) : (-v).norm = v.norm := by
  change ((-v.x) * (-v.x) + (-v.y) * (-v.y) + (-v.z) * (-v.z)).sqrt = _
  simp only [Binary.neg_mul_neg]
  rfl

protected theorem isFinite_congr (h : u.Alike v) : u.isFinite = v.isFinite :=
  all_isFinite_congr h.toList

protected theorem isFinite_neg (v : Vec3 Float32) : (-v).isFinite = v.isFinite := by
  change [-v.x, -v.y, -v.z].all Float32.isFinite = _
  simp only [List.all_cons, Binary.isFinite_neg]
  rfl

theorem equal_of_alike (h : u.Alike v) (hfin : u.isFinite = true) : u.Equal v :=
  beq_of_forall₂ h.toList (List.all_eq_true.mp hfin)

end Vec3

namespace Quaternion

theorem Opposite.neg_left (h : p.Opposite q) : (-p).Alike q :=
  ⟨Binary.Opposite.neg_left h.w, Binary.Opposite.neg_left h.x, Binary.Opposite.neg_left h.y,
    Binary.Opposite.neg_left h.z⟩

theorem Opposite.vec (h : p.Opposite q) : p.vec.Opposite q.vec := ⟨h.x, h.y, h.z⟩

/-! The angle is measured by the magnitude of a scalar product. -/

theorem dot_comm (a b : Quaternion Float32) : a.dot b = b.dot a := by
  simp only [dot, Binary.mul_comm]

theorem opposite_dot (h : p.Opposite q) (d : Quaternion Float32) :
    Binary.Opposite (p.dot d) (q.dot d) :=
  opposite_add (opposite_add (Binary.opposite_mul_left h.x (.refl _))
    (Binary.opposite_mul_left h.z (.refl _)))
    (opposite_add (Binary.opposite_mul_left h.y (.refl _))
      (Binary.opposite_mul_left h.w (.refl _)))

theorem angleTo_congr {a b a' b' : Quaternion Float32} (h : (a.dot b).abs = (a'.dot b').abs) :
    @angleTo _ f.numeric a b = @angleTo _ f.numeric a' b' := by
  have hangle (a b : Quaternion Float32) : @angleTo _ f.numeric a b =
      if (a.dot b).abs.isFinite then
        2.0 * f.acos (@Numeric.clamp _ f.numeric 0.0 1.0 (a.dot b).abs)
      else 0.0 := rfl
  rw [hangle, hangle, h]

theorem angleTo_comm (c d : Quaternion Float32) :
    @angleTo _ f.numeric d c = @angleTo _ f.numeric c d :=
  angleTo_congr (by rw [dot_comm])

theorem angleTo_neg_left (c d : Quaternion Float32) :
    @angleTo _ f.numeric (-c) d = @angleTo _ f.numeric c d :=
  angleTo_congr (abs_congr_of_opposite (opposite_dot (opposite_neg c) d))

theorem angleTo_neg_right (c d : Quaternion Float32) :
    @angleTo _ f.numeric c (-d) = @angleTo _ f.numeric c d := by
  rw [angleTo_comm, angleTo_neg_left, angleTo_comm]

/-! Of a remainder and its negative, both lead the same way round, unless both have no scalar part
to tell the ways apart. -/

/-- One of two attitudes is negated. -/
def OneNegated (c d c' d' : Quaternion Float32) : Prop :=
  c' = -c ∧ d' = d ∨ c' = c ∧ d' = -d

theorem opposite_remainder (h : OneNegated c d c' d') :
    (remainder c' d').Opposite (remainder c d) := by
  have hleft : (-c.conjugate * d).Opposite (c.conjugate * d) :=
    opposite_mul_left (opposite_neg c.conjugate) (.refl d)
  rcases h with ⟨rfl, rfl⟩ | ⟨rfl, rfl⟩
  · exact hleft
  · rwa [← mul_neg_eq] at hleft

theorem shortWay_of_lt (h : q.w < 0.0) : q.shortWay = -q := if_pos (decide_eq_true h)

theorem shortWay_of_not_lt (h : ¬ q.w < 0.0) : q.shortWay = q :=
  if_neg (mt of_decide_eq_true h)

theorem alike_shortWay (h : p.Opposite q) (hnan : q.w.isNaN = false)
    (hw : (q.w == 0.0) = false) : p.shortWay.Alike q.shortWay := by
  have hlt : p.w < 0.0 ↔ ¬ q.w < 0.0 := (lt_congr h.w (.refl _)).trans (neg_lt_zero_iff hnan hw)
  by_cases hq : q.w < 0.0
  · rw [shortWay_of_lt hq, shortWay_of_not_lt fun hp => hlt.mp hp hq]
    exact h
  · rw [shortWay_of_not_lt hq, shortWay_of_lt (hlt.mpr hq)]
    exact h.neg_left

theorem opposite_shortWay (h : p.Opposite q) (hw : (q.w == 0.0) = true) :
    p.shortWay.Opposite q.shortWay := by
  have hp := beq_zero_of_opposite h.w hw
  rwa [shortWay_of_not_lt (not_lt_zero_of_beq hw), shortWay_of_not_lt (not_lt_zero_of_beq hp)]

/-! The remainder to first order. -/

/-- Twice the vector part, where that is in range. -/
theorem smallErrorTo_def (f : Elementary) (c d : Quaternion Float32) :
    @smallErrorTo _ f.numeric c d =
      let error := (remainder c d).shortWay.vec.scale 2.0
      if error.isFinite then error else Vec3.zero := rfl

theorem alike_smallErrorTo (h : OneNegated c d c' d') (hnan : (remainder c d).w.isNaN = false)
    (hw : ((remainder c d).w == 0.0) = false) :
    (@smallErrorTo _ f.numeric c' d').Alike (@smallErrorTo _ f.numeric c d) := by
  have herror := Vec3.alike_scale (alike_shortWay (opposite_remainder h) hnan hw).vec 2.0
  rw [smallErrorTo_def, smallErrorTo_def]
  simp only [Vec3.isFinite_congr herror]
  split
  · exact herror
  · exact .refl _

theorem opposite_smallErrorTo (h : OneNegated c d c' d')
    (hw : ((remainder c d).w == 0.0) = true) :
    (@smallErrorTo _ f.numeric c' d').Opposite (@smallErrorTo _ f.numeric c d) := by
  have herror := Vec3.opposite_scale (opposite_shortWay (opposite_remainder h) hw).vec 2.0
  rw [smallErrorTo_def, smallErrorTo_def]
  simp only [(Vec3.isFinite_congr herror).trans (Vec3.isFinite_neg _)]
  split
  · exact herror
  · exact ⟨.inr (by decide +kernel), .inr (by decide +kernel), .inr (by decide +kernel)⟩

/-! The remainder as a rotation vector. -/

/-- By how much the vector part of a unit quaternion is scaled to a rotation vector. -/
def turnFactor (f : Elementary) (unit : Quaternion Float32) : Float32 :=
  if unit.vec.norm < 1e-10 then 2.0
  else 2.0 * f.atan2 unit.vec.norm unit.w / unit.vec.norm

theorem log_eq_scale (f : Elementary) (q : Quaternion Float32) :
    @log _ f.numeric q =
      q.normalize.shortWay.vec.scale (turnFactor f q.normalize.shortWay) := by
  by_cases h : q.normalize.shortWay.vec.norm < 1e-10
  · rw [turnFactor, if_pos h]
    exact if_pos (decide_eq_true h)
  · rw [turnFactor, if_neg h]
    exact if_neg (mt of_decide_eq_true h)

/-- Beside the axis, the sign of a zero makes no difference. -/
theorem turnFactor_congr (hf : f.SignsOfZeros) (hsine : Binary.Alike p.vec.norm q.vec.norm)
    (hw : Binary.Alike p.w q.w) (hunit : ∀ x ∈ p.toList, Bounded 1 x) :
    turnFactor f p = turnFactor f q := by
  unfold turnFactor
  simp only [lt_congr hsine (.refl 1e-10)]
  split
  · rfl
  · next hlt =>
    have hfin := isFinite_sine .native hunit
    have hlow := le_of_not_negligible (f := .native) hfin fun h =>
      hlt ((lt_congr hsine (.refl _)).mp (of_decide_eq_true h))
    have hpos : 0 < toRat p.vec.norm := lt_of_lt_of_le (by positivity) hlow
    rw [← eq_of_alike hsine hpos.ne']
    rcases hw with hw | ⟨hp, hq⟩
    · rw [hw]
    · have hahead : 0.0 < p.vec.norm := by
        rw [lt_iff_toRat isFinite_zero hfin, toRat_zero]
        exact hpos
      obtain ⟨hbeside, hbeside'⟩ := hf.atan2_beside _ hahead
      have hquarter (x : Float32) (hx : (x == 0.0) = true) :
          f.atan2 p.vec.norm x = quarterTurn := by
        rcases eq_of_beq_zero hx with rfl | rfl
        · exact hbeside
        · exact hbeside'
      rw [hquarter _ hp, hquarter _ hq]

theorem errorTo_def (f : Elementary) (c d : Quaternion Float32) :
    @errorTo _ f.numeric c d =
      let unit := (remainder c d).normalize.shortWay
      unit.vec.scale (turnFactor f unit) := log_eq_scale f (remainder c d)

theorem alike_errorTo (hf : f.SignsOfZeros) (h : OneNegated c d c' d')
    (hw : ((remainder c d).normalize.w == 0.0) = false) :
    (@errorTo _ f.numeric c' d').Alike (@errorTo _ f.numeric c d) := by
  have hunits := opposite_normalize (opposite_remainder h)
  rw [errorTo_def, errorTo_def]
  split at hunits
  · rw [hunits.1, hunits.2]
    exact .refl _
  · have hbound := bounded_normalize .native (remainder c d)
    have hbound' := bounded_normalize .native (remainder c' d')
    have hway := alike_shortWay hunits
      (isNaN_of_isFinite (hbound _ List.mem_cons_self).isFinite) hw
    have hfactor := turnFactor_congr hf (Vec3.alike_norm hway.vec) hway.w
      (bounded_shortWay .native hbound')
    simp only [hfactor]
    exact Vec3.alike_scale hway.vec _

theorem opposite_errorTo (hf : f.SignsOfZeros) (h : OneNegated c d c' d')
    (hw : ((remainder c d).normalize.w == 0.0) = true) :
    (@errorTo _ f.numeric c' d').Opposite (@errorTo _ f.numeric c d) := by
  have hunits := opposite_normalize (opposite_remainder h)
  rw [errorTo_def, errorTo_def]
  split at hunits
  · rw [hunits.2] at hw
    exact absurd hw (by decide +kernel)
  · have hw' := beq_zero_of_opposite hunits.w hw
    have hsine := Vec3.alike_norm hunits.vec
    rw [Vec3.norm_neg] at hsine
    have hfactor := turnFactor_congr hf hsine (.inr ⟨hw', hw⟩)
      (bounded_normalize .native (remainder c' d'))
    rw [shortWay_of_not_lt (not_lt_zero_of_beq hw), shortWay_of_not_lt (not_lt_zero_of_beq hw')]
    simp only [hfactor]
    exact Vec3.opposite_scale hunits.vec _

/-- How errors depend on the signs of the attitudes that they are taken between. -/
theorem error_signs (f : Elementary) (c d : Quaternion Float32) :
    (@angleTo _ f.numeric d c = @angleTo _ f.numeric c d ∧
      @angleTo _ f.numeric (-c) d = @angleTo _ f.numeric c d ∧
      @angleTo _ f.numeric c (-d) = @angleTo _ f.numeric c d) ∧
    ∀ c' d', OneNegated c d c' d' →
      ((remainder c d).w.isNaN = false →
        if (remainder c d).w == 0.0 then
          (@smallErrorTo _ f.numeric c' d').Equal (-@smallErrorTo _ f.numeric c d)
        else (@smallErrorTo _ f.numeric c' d').Equal (@smallErrorTo _ f.numeric c d)) ∧
      (f.InRange → f.SignsOfZeros →
        if (remainder c d).normalize.w == 0.0 then
          (@errorTo _ f.numeric c' d').Equal (-@errorTo _ f.numeric c d)
        else (@errorTo _ f.numeric c' d').Equal (@errorTo _ f.numeric c d)) := by
  refine ⟨⟨angleTo_comm c d, angleTo_neg_left c d, angleTo_neg_right c d⟩, ?_⟩
  intro c' d' h
  constructor
  · intro hnan
    have hfin := isFinite_smallErrorTo f c' d'
    split
    · next hw => exact Vec3.equal_of_alike (opposite_smallErrorTo h hw) hfin
    · next hw =>
      exact Vec3.equal_of_alike (alike_smallErrorTo h hnan (Bool.eq_false_iff.mpr hw)) hfin
  · intro hrange hf
    have hfin := isFinite_errorTo hrange c' d'
    split
    · next hw => exact Vec3.equal_of_alike (opposite_errorTo hf h hw) hfin
    · next hw =>
      exact Vec3.equal_of_alike (alike_errorTo hf h (Bool.eq_false_iff.mpr hw)) hfin

/-- A scalar part that is lost when the remainder is normalized: to first order the short way is
known, for the rotation vector it is not. -/
theorem error_signs_of_lost_part :
    let c : Quaternion Float32 := ⟨1.0, 0.0, 0.0, 0.0⟩
    let d : Quaternion Float32 := ⟨1e-45, 1.5e38, 0.0, 0.0⟩
    let f := Elementary.compass
    (f.InRange ∧ f.SignsOfZeros ∧ OneNegated c d (-c) d ∧ (remainder c d).w.isNaN = false ∧
      ((remainder c d).w == 0.0) = false ∧ ((remainder c d).normalize.w == 0.0) = true) ∧
    (@smallErrorTo _ f.numeric (-c) d).Equal (@smallErrorTo _ f.numeric c d) ∧
    (@errorTo _ f.numeric (-c) d).Equal (-@errorTo _ f.numeric c d) ∧
    @errorTo _ f.numeric c d = ⟨halfTurn, 0.0, 0.0⟩ := by
  intro c d f
  obtain ⟨hnan, hw, hlost⟩ : (remainder c d).w.isNaN = false ∧ ((remainder c d).w == 0.0) = false ∧
      ((remainder c d).normalize.w == 0.0) = true := by decide +kernel
  obtain ⟨hsmall, herror⟩ := (error_signs f c d).2 (-c) d (.inl ⟨rfl, rfl⟩)
  have hsmall := hsmall hnan
  have herror := herror Elementary.inRange_compass Elementary.signsOfZeros_compass
  rw [if_neg (Bool.eq_false_iff.mp hw)] at hsmall
  rw [if_pos hlost] at herror
  exact ⟨⟨Elementary.inRange_compass, Elementary.signsOfZeros_compass, .inl ⟨rfl, rfl⟩, hnan, hw,
    hlost⟩, hsmall, herror, by decide +kernel⟩

end Quaternion
end Strapdown
