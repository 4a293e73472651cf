import Strapdown.Proofs.Attitude.Alike
import Strapdown.Proofs.Attitude.Domains
import Strapdown.Proofs.Binary.Negation

/-!
A quaternion and its negative are one attitude. Matrices and angles are read from either alike, and
turning keeps the two opposite unless the identity has to stand in for them.
-/
namespace Strapdown
open Binary

variable {f : Elementary} {p q p' q' : Quaternion Float32} {a b x y y' : Float32}
  {e e' : Euler Float32}

/-- A length depends on the magnitudes of the components alone, if the plain norm does. -/
theorem Binary.SquareNorm.length_congr {T : Type} {u v : T} (N : SquareNorm T)
    (habs : (N.toList u).map Float32.abs = (N.toList v).map Float32.abs)
    (hnorm : N.norm u = N.norm v) (hdivide : ∀ s, N.norm (N.divide u s) = N.norm (N.divide v s)) :
    N.length u = N.length v := by
  have hall (xs : List Float32) :
      xs.all Float32.isFinite = (xs.map Float32.abs).all Float32.isFinite := by
    simp only [List.all_map, Function.comp_def, Binary.isFinite_abs]
  rw [length, length, peak, peak, hall, hall (N.toList v), habs, hnorm, hdivide]

namespace Quaternion

/-- Each component is alike but for the sign. -/
def Opposite (p q : Quaternion Float32) : Prop := p.Alike (-q)

theorem opposite_neg (q : Quaternion Float32) : (-q).Opposite q := .refl _

protected theorem neg_neg (q : Quaternion Float32) : - -q = q := by
  apply Quaternion.ext <;> exact Binary.neg_neg _

theorem Alike.vec (h : p.Alike q) : p.vec.Alike q.vec := ⟨h.x, h.y, h.z⟩

theorem opposite_mul_left (hp : p.Opposite p') (hq : q.Alike q') : (p * q).Opposite (p' * q') where
  w := opposite_sub (opposite_sub (opposite_sub (Binary.opposite_mul_left hp.w hq.w)
    (Binary.opposite_mul_left hp.x hq.x)) (Binary.opposite_mul_left hp.y hq.y))
    (Binary.opposite_mul_left hp.z hq.z)
  x := opposite_sub (opposite_add (opposite_add (Binary.opposite_mul_left hp.w hq.x)
    (Binary.opposite_mul_left hp.x hq.w)) (Binary.opposite_mul_left hp.y hq.z))
    (Binary.opposite_mul_left hp.z hq.y)
  y := opposite_add (opposite_add (opposite_sub (Binary.opposite_mul_left hp.w hq.y)
    (Binary.opposite_mul_left hp.x hq.z)) (Binary.opposite_mul_left hp.y hq.w))
    (Binary.opposite_mul_left hp.z hq.x)
  z := opposite_add (opposite_sub (opposite_add (Binary.opposite_mul_left hp.w hq.z)
    (Binary.opposite_mul_left hp.x hq.y)) (Binary.opposite_mul_left hp.y hq.x))
    (Binary.opposite_mul_left hp.z hq.w)

/-- Which factor is negated makes no difference to a product. -/
theorem mul_neg_eq (p q : Quaternion Float32) : p * -q = -p * q := by
  have h (a b : Float32) : a * -b = -a * b := by rw [Binary.neg_mul, Binary.mul_neg]
  apply Quaternion.ext
  · change p.w * -q.w - p.x * -q.x - p.y * -q.y - p.z * -q.z = _
    rw [h, h, h, h]
    rfl
  · change p.w * -q.x + p.x * -q.w + p.y * -q.z - p.z * -q.y = _
    rw [h, h, h, h]
    rfl
  · change p.w * -q.y - p.x * -q.z + p.y * -q.w + p.z * -q.x = _
    rw [h, h, h, h]
    rfl
  · change p.w * -q.z + p.x * -q.y - p.y * -q.x + p.z * -q.w = _
    rw [h, h, h, h]
    rfl

theorem alike_mul_of_opposite (hp : p.Opposite p') (hq : q.Opposite q') :
    (p * q).Alike (p' * q') := by
  have hmul := alike_mul hp hq
  rwa [mul_neg_eq, Quaternion.neg_neg] at hmul

theorem alike_rotate_neg (q : Quaternion Float32) (v : Vec3 Float32) :
    ((-q).rotate v).Alike (q.rotate v) :=
  (alike_mul_of_opposite (opposite_mul_left (opposite_neg q) (.refl _))
    (opposite_neg q.conjugate)).vec

theorem alike_rotateBack_neg (q : Quaternion Float32) (v : Vec3 Float32) :
    ((-q).rotateBack v).Alike (q.rotateBack v) :=
  (alike_mul_of_opposite (opposite_mul_left (opposite_neg q.conjugate) (.refl _))
    (opposite_neg q)).vec

/-! The unit quaternion of a negative is the negative one, or the identity for both. -/

protected theorem norm_neg (q : Quaternion Float32) : (-q).norm = q.norm := by
  change (((-q.x) * (-q.x) + (-q.z) * (-q.z)) + ((-q.y) * (-q.y) + (-q.w) * (-q.w))).sqrt = _
  simp only [Binary.neg_mul_neg]
  rfl

theorem divide_neg (q : Quaternion Float32) (s : Float32) : (-q).divide s = -q.divide s := by
  apply Quaternion.ext <;> exact Binary.neg_div _ _

theorem length_neg (q : Quaternion Float32) : (-q).length = q.length := by
  refine (SquareNorm.quaternion .native).length_congr ?_ (Quaternion.norm_neg q) fun s => ?_
  · change [(-q.w).abs, (-q.x).abs, (-q.y).abs, (-q.z).abs] = _
    simp only [abs_neg_eq]
    rfl
  · change ((-q).divide s).norm = (q.divide s).norm
    rw [divide_neg, Quaternion.norm_neg]

theorem normalize_neg (q : Quaternion Float32) :
    if degenerate q.length then (-q).normalize = identity ∧ q.normalize = identity
    else (-q).normalize = -q.normalize := by
  unfold normalize
  rw [length_neg]
  split
  · exact ⟨rfl, rfl⟩
  · exact divide_neg q q.length

theorem opposite_normalize (h : p.Opposite q) :
    if degenerate q.length then p.normalize = identity ∧ q.normalize = identity
    else p.normalize.Opposite q.normalize := by
  have hunits := alike_normalize h
  have hneg := normalize_neg q
  have hlength := degenerate_congr (alike_length h)
  rw [length_neg] at hlength
  split
  · next hd =>
    rw [if_pos hd] at hneg
    rw [← hlength] at hd
    exact ⟨if_pos hd, hneg.2⟩
  · next hd =>
    rw [if_neg hd] at hneg
    rwa [hneg] at hunits

theorem opposite_integrate (h : p.Opposite q) (rate : Vec3 Float32) (dt : Float32) :
    if degenerate (q * @exp _ f.numeric (rate.scale dt)).length then
      @integrate _ f.numeric p rate dt = identity ∧ @integrate _ f.numeric q rate dt = identity
    else (@integrate _ f.numeric p rate dt).Opposite (@integrate _ f.numeric q rate dt) :=
  opposite_normalize (opposite_mul_left h (.refl _))

/-! A matrix has its entries from products of two components. -/

theorem toDcm_neg (q : Quaternion Float32) : (-q).toDcm = q.toDcm := by
  have h (a b : Float32) : -a * -b = a * b := Binary.neg_mul_neg a b
  simp only [toDcm]
  change Dcm.mk ⟨1.0 - 2.0 * (-q.y * -q.y + -q.z * -q.z), 2.0 * (-q.x * -q.y - -q.w * -q.z),
      2.0 * (-q.x * -q.z + -q.w * -q.y)⟩
    ⟨2.0 * (-q.x * -q.y + -q.w * -q.z), 1.0 - 2.0 * (-q.x * -q.x + -q.z * -q.z),
      2.0 * (-q.y * -q.z - -q.w * -q.x)⟩
    ⟨2.0 * (-q.x * -q.z - -q.w * -q.y), 2.0 * (-q.y * -q.z + -q.w * -q.x),
      1.0 - 2.0 * (-q.x * -q.x + -q.y * -q.y)⟩ = _
  simp only [h]
  rfl

end Quaternion

/-! Angles. A zero that is taken from one leaves no trace of its sign, so the entries on the diagonal
are the same, and only sines may be zeros of either sign. -/

namespace Binary

/-- The same angle, if `half` is half a turn: an angle of half a turn has two ends. -/
def SameTurn (half a b : Float32) : Prop :=
  Alike a b ∨ a = half ∧ b = -half ∨ a = -half ∧ b = half

theorem alike_clamp (low high : Float32) (h : Alike a b) :
    Alike (Numeric.clamp low high a) (Numeric.clamp low high b) := by
  have hlow : Numeric.lt a low = Numeric.lt b low := decide_eq_decide.mpr (lt_congr h (.refl _))
  have hhigh : Numeric.lt high a = Numeric.lt high b :=
    decide_eq_decide.mpr (lt_congr (.refl _) h)
  unfold Numeric.clamp
  rw [hlow, hhigh]
  split
  · exact .refl _
  · split
    · exact .refl _
    · exact h

theorem sameTurn_inDegrees (h : SameTurn halfTurn a b) :
    SameTurn 180.0 (Numeric.inDegrees a) (Numeric.inDegrees b) := by
  have hhalf : Numeric.inDegrees halfTurn = 180.0 := by decide +kernel
  have hneg : Numeric.inDegrees (-halfTurn) = -180.0 := by decide +kernel
  rcases h with h | ⟨rfl, rfl⟩ | ⟨rfl, rfl⟩
  · exact .inl (alike_mul h (.refl _))
  · exact .inr (.inl ⟨hhalf, hneg⟩)
  · exact .inr (.inr ⟨hneg, hhalf⟩)

end Binary

/-- What a library answers at zeros of either sign. On the far side, the sign of a zero tells from
which end half a turn is reached. -/
structure Elementary.SignsOfZeros (f : Elementary) : Prop where
  asin_zero : f.asin 0.0 = 0.0 ∧ f.asin (-0.0) = -0.0
  atan2_ahead : ∀ x, x = 0.0 ∨ 0.0 < x → f.atan2 0.0 x = 0.0 ∧ f.atan2 (-0.0) x = -0.0
  atan2_behind : ∀ x, x = -0.0 ∨ x < 0.0 →
    f.atan2 0.0 x = halfTurn ∧ f.atan2 (-0.0) x = -halfTurn
  atan2_beside : ∀ y, 0.0 < y → f.atan2 y 0.0 = quarterTurn ∧ f.atan2 y (-0.0) = quarterTurn

namespace Elementary

theorem SignsOfZeros.alike_asin (hf : f.SignsOfZeros) (h : Alike a b) :
    Alike (f.asin a) (f.asin b) := by
  rcases h with rfl | ⟨ha, hb⟩
  · exact .refl _
  · have hzero (c : Float32) (hc : (c == 0.0) = true) : (f.asin c == 0.0) = true := by
      rcases eq_of_beq_zero hc with rfl | rfl
      · rw [hf.asin_zero.1]
        decide +kernel
      · rw [hf.asin_zero.2]
        decide +kernel
    exact .inr ⟨hzero a ha, hzero b hb⟩

theorem SignsOfZeros.sameTurn_atan2 (hf : f.SignsOfZeros) (h : Alike y y')
    (hx : x.isFinite = true) : SameTurn halfTurn (f.atan2 y x) (f.atan2 y' x) := by
  rcases h with rfl | ⟨hy, hy'⟩
  · exact .inl (.refl _)
  · rcases ahead_or_behind hx with hx | hx
    · obtain ⟨hpos, hneg⟩ := hf.atan2_ahead x hx
      have hzero (c : Float32) (hc : (c == 0.0) = true) : (f.atan2 c x == 0.0) = true := by
        rcases eq_of_beq_zero hc with rfl | rfl
        · rw [hpos]
          decide +kernel
        · rw [hneg]
          decide +kernel
      exact .inl (.inr ⟨hzero y hy, hzero y' hy'⟩)
    · obtain ⟨hpos, hneg⟩ := hf.atan2_behind x hx
      rcases eq_of_beq_zero hy with rfl | rfl <;> rcases eq_of_beq_zero hy' with rfl | rfl
      · exact .inl (.refl _)
      · exact .inr (.inl ⟨hpos, hneg⟩)
      · exact .inr (.inr ⟨hneg, hpos⟩)
      · exact .inl (.refl _)

/-- The functions at quarter turns, and which way the axes of the plane point. -/
def compass : Elementary where
  sin := quarterTurns.sin
  cos := quarterTurns.cos
  asin := quarterTurns.asin
  acos := quarterTurns.acos
  atan2 y x :=
    if y = 0.0 then if x = 0.0 ∨ 0.0 < x then 0.0 else halfTurn
    else if y = -0.0 then if x = 0.0 ∨ 0.0 < x then -0.0 else -halfTurn
    else if 0.0 < y then quarterTurn else -quarterTurn

theorem inRange_compass : compass.InRange where
  sin := inRange_quarterTurns.sin
  cos := inRange_quarterTurns.cos
  asin := inRange_quarterTurns.asin
  acos := inRange_quarterTurns.acos
  atan2 y x _ _ := by
    simp only [compass]
    split_ifs <;> decide +kernel

theorem signsOfZeros_compass : compass.SignsOfZeros where
  asin_zero := by decide +kernel
  atan2_ahead x hx := ⟨if_pos hx, if_pos hx⟩
  atan2_behind x hx := by
    have hnot : ¬ (x = 0.0 ∨ 0.0 < x) := by
      rcases hx with rfl | hx
      · decide +kernel
      · rintro (rfl | hpos)
        · exact absurd hx (by decide +kernel)
        · exact not_zero_lt hx hpos
    exact ⟨if_neg hnot, if_neg hnot⟩
  atan2_beside y hy := by
    have hpos : y ≠ 0.0 := by
      rintro rfl
      exact absurd hy (by decide +kernel)
    have hneg : y ≠ -0.0 := by
      rintro rfl
      exact absurd hy (by decide +kernel)
    simp only [compass, if_neg hpos, if_neg hneg, if_pos hy, and_self]

end Elementary

namespace Euler

/-- The same angles, if `half` is half a turn. A pitch goes up to a quarter turn only. -/
structure SameTurn (half : Float32) (e e' : Euler Float32) : Prop where
  roll : Binary.SameTurn half e.roll e'.roll
  pitch : Alike e.pitch e'.pitch
  yaw : Binary.SameTurn half e.yaw e'.yaw

theorem ofQuaternion_neg (f : Elementary) (q : Quaternion Float32) :
    @ofQuaternion _ f.numeric (-q) = @ofQuaternion _ f.numeric q := by
  change @ofDcm _ f.numeric (-q).normalize.toDcm = @ofDcm _ f.numeric q.normalize.toDcm
  have hneg := q.normalize_neg
  split at hneg
  · rw [hneg.1, hneg.2]
  · rw [hneg, Quaternion.toDcm_neg]

theorem sameTurn_ofQuaternion (hf : f.SignsOfZeros) (h : p.Alike q) :
    SameTurn halfTurn (@ofQuaternion _ f.numeric p) (@ofQuaternion _ f.numeric q) := by
  obtain ⟨⟨h00, -⟩, -, -, h22⟩ := isFinite_toDcm f (Quaternion.bounded_normalize f p)
  have h := Quaternion.alike_normalize h
  change SameTurn halfTurn (@ofDcm _ f.numeric p.normalize.toDcm)
    (@ofDcm _ f.numeric q.normalize.toDcm)
  change p.normalize.toDcm.row0.x.isFinite = true at h00
  change p.normalize.toDcm.row2.z.isFinite = true at h22
  generalize p.normalize = u, q.normalize = v at h h00 h22 ⊢
  have htwice {a a' b b' c c' d d' : Float32} (ha : Alike a a') (hb : Alike b b')
      (hc : Alike c c') (hd : Alike d d') :
      Alike (2.0 * (a * b + c * d)) (2.0 * (a' * b' + c' * d')) :=
    alike_mul (.refl _) (alike_add (alike_mul ha hb) (alike_mul hc hd))
  have hroll : u.toDcm.row2.z = v.toDcm.row2.z := one_sub_congr (htwice h.x h.x h.y h.y)
  have hyaw : u.toDcm.row0.x = v.toDcm.row0.x := one_sub_congr (htwice h.y h.y h.z h.z)
  have hpitch : Alike u.toDcm.row2.x v.toDcm.row2.x :=
    alike_mul (.refl _) (alike_sub (alike_mul h.x h.z) (alike_mul h.w h.y))
  have hrollSine : Alike u.toDcm.row2.y v.toDcm.row2.y := htwice h.y h.z h.w h.x
  have hyawSine : Alike u.toDcm.row1.x v.toDcm.row1.x := htwice h.x h.y h.w h.z
  refine ⟨?_, hf.alike_asin (alike_clamp _ _ (alike_neg hpitch)), ?_⟩
  · change Binary.SameTurn _ (f.atan2 _ _) (f.atan2 _ v.toDcm.row2.z)
    rw [← hroll]
    exact hf.sameTurn_atan2 hrollSine h22
  · change Binary.SameTurn _ (f.atan2 _ _) (f.atan2 _ v.toDcm.row0.x)
    rw [← hyaw]
    exact hf.sameTurn_atan2 hyawSine h00

theorem sameTurn_inDegrees (h : SameTurn halfTurn e e') :
    SameTurn 180.0 e.inDegrees e'.inDegrees :=
  ⟨Binary.sameTurn_inDegrees h.roll, alike_mul h.pitch (.refl _), Binary.sameTurn_inDegrees h.yaw⟩

end Euler
end Strapdown
