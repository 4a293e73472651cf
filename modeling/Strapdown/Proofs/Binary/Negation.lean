import Strapdown.Proofs.Binary.ZeroSigns

/-!
Negation passes through arithmetic. Products and quotients carry it exactly. A sum carries it but
for the sign of a zero, because numbers that cancel leave a positive zero on either side.
-/
namespace Strapdown.Binary
open Float.Model (Format UnpackedFloat)
open Float.Model.UnpackedFloat

variable {spec : Format} {a a' b b' c : Float32}

theorem sign_neg_mul (s₁ s₂ : Sign) : -s₁ * s₂ = -(s₁ * s₂) := by
  cases s₁ <;> cases s₂ <;> rfl

theorem sign_mul_comm (s₁ s₂ : Sign) : s₁ * s₂ = s₂ * s₁ := by
  cases s₁ <;> cases s₂ <;> rfl

theorem sign_neg_apply (sign : Sign) (n : ℤ) : (-sign).apply n = -sign.apply n := by
  cases sign
  · exact (neg_neg n).symm
  · rfl

theorem unpacked_neg_neg (r : UnpackedFloat) : r.neg.neg = r := by
  have hsign (sign : Sign) : - -sign = sign := by cases sign <;> rfl
  cases r with
  | notANumber => rfl
  | _ => simp only [UnpackedFloat.neg, hsign]

/-! A sign is rounded, packed and unpacked apart from the magnitude. -/

theorem roundWithAccuracy_neg (sign : Sign) (m : ℕ) (e : ℤ) (acc : Accuracy) :
    roundWithAccuracy spec (-sign) m e acc = (roundWithAccuracy spec sign m e acc).neg := by
  unfold roundWithAccuracy
  dsimp only
  split <;> rfl

theorem unpack_packComponents_neg (sign : Sign) (e : BitVec spec.exponentBits)
    (m : BitVec spec.mantissaBitsWithoutImplicit) :
    unpack spec (packComponents spec (-sign) e m) =
      (unpack spec (packComponents spec sign e m)).neg := by
  simp only [unpack, unpackExponent_packComponents, unpackMantissa_packComponents,
    unpackSign_packComponents, Sign.ofBitVec_toBitVec]
  split_ifs <;> rfl

theorem store_neg (r : UnpackedFloat) : store spec r.neg = (store spec r).neg := by
  cases r with
  | infinity sign => rw [UnpackedFloat.neg, store_infinity, store_infinity, UnpackedFloat.neg]
  | notANumber => rw [UnpackedFloat.neg, store_notANumber, UnpackedFloat.neg]
  | zero sign => rw [UnpackedFloat.neg, store_zero, store_zero, UnpackedFloat.neg]
  | finite sign m e hm =>
    simp only [store, UnpackedFloat.neg, pack]
    split_ifs <;> exact unpack_packComponents_neg _ _ _

theorem neg_mul_unpacked (r s : UnpackedFloat) : r.neg.mul spec s = (r.mul spec s).neg := by
  cases r <;> cases s <;>
    simp only [UnpackedFloat.neg, UnpackedFloat.mul, sign_neg_mul, roundWithAccuracy_neg]

theorem mul_comm_unpacked (r s : UnpackedFloat) : r.mul spec s = s.mul spec r := by
  cases r <;> cases s <;>
    simp only [UnpackedFloat.mul, sign_mul_comm, Nat.mul_comm, Int.add_comm]

theorem neg_div_unpacked (r s : UnpackedFloat) : r.neg.div spec s = (r.div spec s).neg := by
  have hsign (s₁ s₂ : Sign) : -s₁ / s₂ = -(s₁ / s₂) := sign_neg_mul s₁ s₂
  cases r <;> cases s <;>
    simp only [UnpackedFloat.neg, UnpackedFloat.div, hsign, roundWithAccuracy_neg]

/-- Where a sum cancels, its zero is positive whichever operand was negative. -/
theorem normalize_neg (m e : ℤ) : UpToSign (UnpackedFloat.normalize spec (-m) e .positive)
    (UnpackedFloat.normalize spec m e .positive).neg := by
  have hround (sign : Sign) (n : ℕ) :
      round spec (-sign) n e = (round spec sign n e).neg := roundWithAccuracy_neg _ _ _ _
  unfold UnpackedFloat.normalize
  rcases lt_trichotomy m 0 with hm | rfl | hm
  · rw [Int.compare_eq_lt.mpr hm, Int.compare_eq_gt.mpr (by omega : 0 < -m), ← hround]
    exact .same _
  · exact .zeros _ _
  · rw [Int.compare_eq_gt.mpr hm, Int.compare_eq_lt.mpr (by omega : -m < 0), ← hround, neg_neg]
    exact .same _

theorem upToSign_neg_add_neg (r s : UnpackedFloat) :
    UpToSign (r.neg.add spec s.neg) (r.add spec s).neg := by
  cases r with
  | zero s₁ =>
    cases s with
    | zero s₂ => cases s₁ <;> cases s₂ <;> constructor
    | _ => exact .same _
  | infinity s₁ =>
    cases s with
    | infinity s₂ => cases s₁ <;> cases s₂ <;> constructor
    | _ => exact .same _
  | notANumber => cases s <;> exact .same _
  | finite s₁ m₁ e₁ h₁ =>
    cases s with
    | finite s₂ m₂ e₂ h₂ =>
      simp only [UnpackedFloat.neg, UnpackedFloat.add, sign_neg_apply, ← neg_add]
      exact normalize_neg _ _
    | _ => exact .same _

/-! The same for binary32 numbers. -/

protected theorem neg_neg (a : Float32) : - -a = a := by
  apply ofFloat32_injective
  rw [ofFloat32_neg, ofFloat32_neg, unpacked_neg_neg]

protected theorem neg_mul (a b : Float32) : -a * b = -(a * b) := by
  apply ofFloat32_injective
  rw [ofFloat32_mul, ofFloat32_neg, ofFloat32_neg, ofFloat32_mul, neg_mul_unpacked, store_neg]

protected theorem mul_comm (a b : Float32) : a * b = b * a := by
  apply ofFloat32_injective
  rw [ofFloat32_mul, ofFloat32_mul, mul_comm_unpacked]

protected theorem mul_neg (a b : Float32) : a * -b = -(a * b) := by
  rw [Binary.mul_comm, Binary.neg_mul, Binary.mul_comm]

protected theorem neg_mul_neg (a b : Float32) : -a * -b = a * b := by
  rw [Binary.neg_mul, Binary.mul_neg, Binary.neg_neg]

protected theorem neg_div (a b : Float32) : -a / b = -(a / b) := by
  apply ofFloat32_injective
  rw [ofFloat32_div, ofFloat32_neg, ofFloat32_neg, ofFloat32_div, neg_div_unpacked, store_neg]

theorem abs_neg_eq (a : Float32) : (-a).abs = a.abs := by
  apply ofFloat32_injective
  rw [ofFloat32_abs, ofFloat32_abs, ofFloat32_neg]
  cases ofFloat32 a <;> rfl

theorem Alike.symm (h : Alike a b) : Alike b a := alike_iff.2 (alike_iff.1 h).symm

theorem Alike.trans (h : Alike a b) (h' : Alike b c) : Alike a c :=
  alike_iff.2 ((alike_iff.1 h).trans (alike_iff.1 h'))

theorem alike_neg (h : Alike a b) : Alike (-a) (-b) := by
  rw [alike_iff, ofFloat32_neg, ofFloat32_neg]
  exact upToSign_neg (alike_iff.1 h)

theorem alike_neg_add_neg (a b : Float32) : Alike (-a + -b) (-(a + b)) := by
  rw [alike_iff, ofFloat32_add, ofFloat32_neg, ofFloat32_neg, ofFloat32_neg, ofFloat32_add,
    ← store_neg]
  exact upToSign_store (upToSign_neg_add_neg _ _)

/-- Alike but for the sign, or zeros. -/
def Opposite (a b : Float32) : Prop := Alike a (-b)

theorem opposite_neg (a : Float32) : Opposite (-a) a := .refl _

theorem Opposite.neg (h : Opposite a b) : Opposite (-a) (-b) := alike_neg h

/-- What is opposite is alike once either is negated. -/
theorem Opposite.neg_left (h : Opposite a b) : Alike (-a) b := by
  have hneg := alike_neg h
  rwa [Binary.neg_neg] at hneg

theorem opposite_add (ha : Opposite a a') (hb : Opposite b b') : Opposite (a + b) (a' + b') :=
  (alike_add ha hb).trans (alike_neg_add_neg a' b')

theorem opposite_sub (ha : Opposite a a') (hb : Opposite b b') : Opposite (a - b) (a' - b') := by
  have hsub (a b : Float32) : a - b = a + -b := by
    apply ofFloat32_injective
    rw [ofFloat32_sub, ofFloat32_add, ofFloat32_neg, sub_eq_add]
  rw [hsub, hsub]
  exact opposite_add ha hb.neg

theorem opposite_mul_left (ha : Opposite a a') (hb : Alike b b') : Opposite (a * b) (a' * b') := by
  have hmul := alike_mul ha hb
  rwa [Binary.neg_mul] at hmul

theorem not_lt_zero_of_beq (h : (a == 0.0) = true) : ¬ a < 0.0 := by
  obtain ⟨sign, ha⟩ := beq_zero_iff.1 h
  rw [lt_iff_lt, ha, ofFloat32_zero]
  exact Bool.false_ne_true

theorem beq_zero_of_opposite (h : Opposite a b) (hb : (b == 0.0) = true) : (a == 0.0) = true := by
  rcases h with rfl | ⟨ha, -⟩
  · obtain ⟨sign, hb⟩ := beq_zero_iff.1 hb
    rw [beq_zero_iff, ofFloat32_neg, hb]
    exact ⟨-sign, rfl⟩
  · exact ha

/-- Of a number and its negative, one is below zero, unless they are zeros. -/
theorem neg_lt_zero_iff (hnan : a.isNaN = false) (hzero : (a == 0.0) = false) :
    -a < 0.0 ↔ ¬ a < 0.0 := by
  rw [lt_iff_lt, lt_iff_lt, ofFloat32_neg, ofFloat32_zero]
  change (ofFloat32 a).isNaN = false at hnan
  rw [beq_eq, ofFloat32_zero] at hzero
  cases hr : ofFloat32 a with
  | notANumber => rw [hr] at hnan; cases hnan
  | zero sign => rw [hr] at hzero; cases hzero
  | infinity sign => cases sign <;> decide
  | finite sign m e hm =>
    cases sign <;> simp [UnpackedFloat.neg, UnpackedFloat.lt, UnpackedFloat.compare]

theorem abs_congr_of_opposite (h : Opposite a b) : a.abs = b.abs :=
  (abs_congr h).trans (abs_neg_eq b)

/-! Numbers by their signs, those of zeros among them. -/

theorem eq_of_beq_zero (h : (a == 0.0) = true) : a = 0.0 ∨ a = -0.0 := by
  obtain ⟨sign, ha⟩ := beq_zero_iff.1 h
  cases sign with
  | positive => exact .inl (ofFloat32_injective ha)
  | negative => exact .inr (ofFloat32_injective ha)

theorem ahead_or_behind (h : a.isFinite = true) :
    (a = 0.0 ∨ 0.0 < a) ∨ a = -0.0 ∨ a < 0.0 := by
  rw [← isFinite_ofFloat32] at h
  rw [lt_iff_lt, lt_iff_lt, ofFloat32_zero]
  cases hr : ofFloat32 a with
  | infinity sign => rw [hr] at h; cases h
  | notANumber => rw [hr] at h; cases h
  | zero sign =>
    cases sign with
    | positive => exact .inl (.inl (ofFloat32_injective hr))
    | negative => exact .inr (.inl (ofFloat32_injective hr))
  | finite sign m e hm =>
    cases sign with
    | positive => exact .inl (.inr rfl)
    | negative => exact .inr (.inr rfl)

theorem not_zero_lt (h : a < 0.0) : ¬ 0.0 < a := by
  rw [lt_iff_lt, ofFloat32_zero] at h ⊢
  cases hr : ofFloat32 a with
  | notANumber => rw [hr] at h; cases h
  | zero sign => exact Bool.false_ne_true
  | infinity sign =>
    cases sign with
    | positive => rw [hr] at h; cases h
    | negative => exact Bool.false_ne_true
  | finite sign m e hm =>
    cases sign with
    | positive => rw [hr] at h; cases h
    | negative => exact Bool.false_ne_true

theorem one_sub_congr (h : Alike a b) : 1.0 - a = 1.0 - b := by
  rcases h with rfl | ⟨ha, hb⟩
  · rfl
  · have hone (c : Float32) (hc : (c == 0.0) = true) : 1.0 - c = 1.0 := by
      rcases eq_of_beq_zero hc with rfl | rfl <;> decide +kernel
    rw [hone a ha, hone b hb]

end Strapdown.Binary
