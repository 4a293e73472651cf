import Strapdown.Proofs.Binary.Arithmetic

/-!
Numbers that are the same but for the sign of zeros. Arithmetic takes alike numbers to alike
numbers, as long as nothing is divided by a zero.
-/
namespace Strapdown.Binary
open Float.Model (Format UnpackedFloat)

variable {spec : Format} {r r' s s' t : UnpackedFloat} {a a' b b' c : Float32}

/-- The same number, or two zeros. -/
inductive UpToSign : UnpackedFloat → UnpackedFloat → Prop
  | same (r : UnpackedFloat) : UpToSign r r
  | zeros (s₁ s₂ : UnpackedFloat.Sign) : UpToSign (.zero s₁) (.zero s₂)

theorem upToSign_store (h : UpToSign r s) : UpToSign (store spec r) (store spec s) := by
  cases h with
  | same => exact .same _
  | zeros s₁ s₂ =>
    rw [store_zero, store_zero]
    exact .zeros s₁ s₂

theorem upToSign_neg (h : UpToSign r s) : UpToSign r.neg s.neg := by
  cases h with
  | same => exact .same _
  | zeros s₁ s₂ => exact .zeros _ _

theorem upToSign_sqrt (h : UpToSign r s) : UpToSign (r.sqrt spec) (s.sqrt spec) := by
  cases h with
  | same => exact .same _
  | zeros s₁ s₂ => exact .zeros s₁ s₂

theorem UpToSign.symm (h : UpToSign r s) : UpToSign s r := by
  cases h with
  | same => exact .same _
  | zeros s₁ s₂ => exact .zeros s₂ s₁

theorem UpToSign.trans (hr : UpToSign r s) (hs : UpToSign s t) : UpToSign r t := by
  cases hr with
  | same => exact hs
  | zeros s₁ s₂ =>
    cases hs with
    | same => exact .zeros s₁ s₂
    | zeros _ s₃ => exact .zeros s₁ s₃

theorem upToSign_add_zero (r : UnpackedFloat) (sign : UnpackedFloat.Sign) :
    UpToSign (r.add spec (.zero sign)) r := by
  cases r with
  | zero s =>
    simp only [UnpackedFloat.add]
    split <;> exact .zeros _ _
  | _ => exact .same _

theorem upToSign_zero_add (sign : UnpackedFloat.Sign) (r : UnpackedFloat) :
    UpToSign (UnpackedFloat.add spec (.zero sign) r) r := by
  cases r with
  | zero s =>
    simp only [UnpackedFloat.add]
    split <;> exact .zeros _ _
  | _ => exact .same _

theorem upToSign_add (hr : UpToSign r r') (hs : UpToSign s s') :
    UpToSign (r.add spec s) (r'.add spec s') := by
  cases hr with
  | same r =>
    cases hs with
    | same s => exact .same _
    | zeros s₁ s₂ => exact (upToSign_add_zero r s₁).trans (upToSign_add_zero r s₂).symm
  | zeros r₁ r₂ => exact (upToSign_zero_add r₁ s).trans (hs.trans (upToSign_zero_add r₂ s').symm)

theorem upToSign_sub (hr : UpToSign r r') (hs : UpToSign s s') :
    UpToSign (r.sub spec s) (r'.sub spec s') := by
  rw [sub_eq_add, sub_eq_add]
  exact upToSign_add hr (upToSign_neg hs)

theorem upToSign_mul (hr : UpToSign r r') (hs : UpToSign s s') :
    UpToSign (r.mul spec s) (r'.mul spec s') := by
  cases hr with
  | same r =>
    cases hs with
    | same s => exact .same _
    | zeros s₁ s₂ => cases r <;> constructor
  | zeros r₁ r₂ =>
    cases hs with
    | same s => cases s <;> constructor
    | zeros s₁ s₂ => constructor

theorem upToSign_div (hr : UpToSign r r') (s : UnpackedFloat) :
    UpToSign (r.div spec s) (r'.div spec s) := by
  cases hr with
  | same r => exact .same _
  | zeros r₁ r₂ => cases s <;> constructor

theorem compare_congr (hr : UpToSign r r') (hs : UpToSign s s') :
    r.compare s = r'.compare s' := by
  cases hr with
  | same r =>
    cases hs with
    | same s => rfl
    | zeros s₁ s₂ =>
      cases r with
      | infinity sign => cases sign <;> rfl
      | finite sign m e hm => cases sign <;> rfl
      | _ => rfl
  | zeros r₁ r₂ =>
    cases hs with
    | same s =>
      cases s with
      | infinity sign => cases sign <;> rfl
      | finite sign m e hm => cases sign <;> rfl
      | _ => rfl
    | zeros s₁ s₂ => rfl

theorem UpToSign.eq_or_zeros (h : UpToSign r s) :
    r = s ∨ (∃ sign, r = .zero sign) ∧ ∃ sign, s = .zero sign := by
  cases h with
  | same => exact .inl rfl
  | zeros s₁ s₂ => exact .inr ⟨⟨s₁, rfl⟩, ⟨s₂, rfl⟩⟩

theorem ofFloat32_injective (h : ofFloat32 a = ofFloat32 b) : a = b := by
  rw [← toFloat32_ofFloat32 a, h, toFloat32_ofFloat32]

theorem ofFloat32_zero : ofFloat32 0.0 = .zero .positive := rfl

theorem beq_eq (a b : Float32) : (a == b) = (ofFloat32 a).beq (ofFloat32 b) := rfl

theorem beq_zero_iff : (a == 0.0) = true ↔ ∃ sign, ofFloat32 a = .zero sign := by
  rw [beq_eq, ofFloat32_zero]
  constructor
  · intro h
    cases hr : ofFloat32 a with
    | zero sign => exact ⟨sign, rfl⟩
    | infinity sign => rw [hr] at h; cases sign <;> cases h
    | notANumber => rw [hr] at h; cases h
    | finite sign _ _ _ => rw [hr] at h; cases sign <;> cases h
  · rintro ⟨sign, hr⟩
    rw [hr]
    rfl

/-- Equal numbers, or zeros. -/
def Alike (a b : Float32) : Prop := a = b ∨ (a == 0.0) = true ∧ (b == 0.0) = true

theorem alike_iff : Alike a b ↔ UpToSign (ofFloat32 a) (ofFloat32 b) := by
  constructor
  · rintro (rfl | ⟨ha, hb⟩)
    · exact .same _
    · obtain ⟨s₁, ha⟩ := beq_zero_iff.1 ha
      obtain ⟨s₂, hb⟩ := beq_zero_iff.1 hb
      rw [ha, hb]
      exact .zeros s₁ s₂
  · intro h
    rcases h.eq_or_zeros with h | ⟨ha, hb⟩
    · exact .inl (ofFloat32_injective h)
    · exact .inr ⟨beq_zero_iff.2 ha, beq_zero_iff.2 hb⟩

theorem Alike.refl (a : Float32) : Alike a a := .inl rfl

theorem alike_add (ha : Alike a a') (hb : Alike b b') : Alike (a + b) (a' + b') := by
  rw [alike_iff, ofFloat32_add, ofFloat32_add]
  exact upToSign_store (upToSign_add (alike_iff.1 ha) (alike_iff.1 hb))

theorem alike_sub (ha : Alike a a') (hb : Alike b b') : Alike (a - b) (a' - b') := by
  rw [alike_iff, ofFloat32_sub, ofFloat32_sub]
  exact upToSign_store (upToSign_sub (alike_iff.1 ha) (alike_iff.1 hb))

theorem alike_mul (ha : Alike a a') (hb : Alike b b') : Alike (a * b) (a' * b') := by
  rw [alike_iff, ofFloat32_mul, ofFloat32_mul]
  exact upToSign_store (upToSign_mul (alike_iff.1 ha) (alike_iff.1 hb))

theorem alike_div (ha : Alike a a') (c : Float32) : Alike (a / c) (a' / c) := by
  rw [alike_iff, ofFloat32_div, ofFloat32_div]
  exact upToSign_store (upToSign_div (alike_iff.1 ha) _)

theorem alike_sqrt (ha : Alike a a') : Alike a.sqrt a'.sqrt := by
  rw [alike_iff, ofFloat32_sqrt, ofFloat32_sqrt]
  exact upToSign_store (upToSign_sqrt (alike_iff.1 ha))

/-- Adding a zero changes at most the sign of a zero. -/
theorem alike_add_zero (a : Float32) (hb : (b == 0.0) = true) : Alike a (a + b) := by
  obtain ⟨sign, hb⟩ := beq_zero_iff.1 hb
  have hstored : UpToSign (ofFloat32 a) (store .binary32 (ofFloat32 a)) := by
    rw [store_of_fits (fits_ofFloat32 a)]
    exact .same _
  rw [alike_iff, ofFloat32_add, hb]
  exact hstored.trans (upToSign_store (upToSign_add_zero _ sign).symm)

theorem abs_congr (ha : Alike a a') : a.abs = a'.abs := by
  apply ofFloat32_injective
  rw [ofFloat32_abs, ofFloat32_abs]
  have h := alike_iff.1 ha
  generalize ofFloat32 a = r, ofFloat32 a' = s at h
  cases h <;> rfl

theorem isFinite_congr (ha : Alike a a') : a.isFinite = a'.isFinite := by
  rw [← isFinite_ofFloat32, ← isFinite_ofFloat32]
  have h := alike_iff.1 ha
  generalize ofFloat32 a = r, ofFloat32 a' = s at h
  cases h <;> rfl

theorem lt_congr (ha : Alike a a') (hb : Alike b b') : a < b ↔ a' < b' := by
  rw [lt_iff_lt, lt_iff_lt, UnpackedFloat.lt, UnpackedFloat.lt,
    compare_congr (alike_iff.1 ha) (alike_iff.1 hb)]

/-- What is alike is the same, where the exact value is not zero. -/
theorem eq_of_alike (ha : Alike a a') (hne : toRat a ≠ 0) : a = a' := by
  rcases ha with ha | ⟨ha, -⟩
  · exact ha
  · obtain ⟨sign, ha⟩ := beq_zero_iff.1 ha
    have hz : toRat a = 0 := by rw [toRat, ha]; rfl
    exact absurd hz hne

/-- Alike numbers are equal in the order of binary32. -/
theorem beq_of_alike (ha : Alike a a') (hfin : a.isFinite = true) : (a == a') = true := by
  rw [beq_eq]
  have h := alike_iff.1 ha
  rw [← isFinite_ofFloat32] at hfin
  generalize ofFloat32 a = r, ofFloat32 a' = s at h hfin
  cases h with
  | zeros s₁ s₂ => rfl
  | same r =>
    cases r with
    | infinity _ => cases hfin
    | notANumber => cases hfin
    | zero _ => rfl
    | finite sign m e hm =>
      cases sign <;> simp [UnpackedFloat.beq, UnpackedFloat.compare]

theorem beq_of_forall₂ {xs ys : List Float32} (h : List.Forall₂ Alike xs ys)
    (hfin : ∀ x ∈ xs, x.isFinite = true) :
    List.Forall₂ (fun a b => (a == b) = true) xs ys := by
  induction h with
  | nil => exact .nil
  | cons h _ ih =>
    rw [List.forall_mem_cons] at hfin
    exact .cons (beq_of_alike h hfin.1) (ih hfin.2)

end Strapdown.Binary
