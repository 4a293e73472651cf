import Strapdown.Numeric
import Strapdown.Proofs.Binary.Operations

/-! Arithmetic and order of binary32 numbers, in terms of their exact values. -/
namespace Strapdown.Binary
open Float.Model (Format UnpackedFloat)
open Float.Model.UnpackedFloat

variable {spec : Format} {r s : UnpackedFloat} {a b : Float32} {x : ℚ}

theorem fits_ofFloat32 (a : Float32) : Fits .binary32 (ofFloat32 a) :=
  fits_unpack _ (by decide)

theorem toFloat32_ofFloat32 (a : Float32) : toFloat32 (ofFloat32 a) = a := by
  have hpack : (ofFloat32 a).pack .binary32 = a.toBits.toBitVec :=
    pack_unpack_of_valid a.toModel.valid (by decide)
  rw [toFloat32, hpack]
  exact Float32.ofBits_toBits a

theorem ofFloat32_add (a b : Float32) :
    ofFloat32 (a + b) = store .binary32 ((ofFloat32 a).add .binary32 (ofFloat32 b)) := rfl

theorem ofFloat32_sub (a b : Float32) :
    ofFloat32 (a - b) = store .binary32 ((ofFloat32 a).sub .binary32 (ofFloat32 b)) := rfl

theorem ofFloat32_mul (a b : Float32) :
    ofFloat32 (a * b) = store .binary32 ((ofFloat32 a).mul .binary32 (ofFloat32 b)) := rfl

theorem ofFloat32_div (a b : Float32) :
    ofFloat32 (a / b) = store .binary32 ((ofFloat32 a).div .binary32 (ofFloat32 b)) := rfl

theorem ofFloat32_sqrt (a : Float32) :
    ofFloat32 a.sqrt = store .binary32 ((ofFloat32 a).sqrt .binary32) := rfl

theorem isFinite_ofFloat32 (a : Float32) : (ofFloat32 a).isFinite = a.isFinite := rfl

theorem fits_neg (h : Fits spec r) : Fits spec r.neg := by
  refine ⟨canonical_neg h.canonical, ?_⟩
  intro sign m e hm he
  cases r with
  | finite s m' e' hm' =>
    simp only [UnpackedFloat.neg, UnpackedFloat.finite.injEq] at he
    exact he.2.2 ▸ h.bounded _ _ _ _ rfl
  | _ => simp [UnpackedFloat.neg] at he

theorem fits_abs (h : Fits spec r) : Fits spec r.abs := by
  cases r with
  | finite s m e hm =>
    refine ⟨h.canonical, ?_⟩
    intro sign m' e' hm' he
    simp only [UnpackedFloat.abs, UnpackedFloat.finite.injEq] at he
    exact he.2.2 ▸ h.bounded _ _ _ _ rfl
  | _ => exact ⟨trivial, fun _ _ _ _ he => by simp [UnpackedFloat.abs] at he⟩

theorem ofFloat32_neg (a : Float32) : ofFloat32 (-a) = (ofFloat32 a).neg :=
  store_of_fits (fits_neg (fits_ofFloat32 a))

theorem ofFloat32_abs (a : Float32) : ofFloat32 a.abs = (ofFloat32 a).abs :=
  store_of_fits (fits_abs (fits_ofFloat32 a))

@[simp] theorem isFinite_neg (a : Float32) : (-a).isFinite = a.isFinite := by
  rw [← isFinite_ofFloat32, ofFloat32_neg, ← isFinite_ofFloat32]
  cases ofFloat32 a <;> rfl

@[simp] theorem isFinite_abs (a : Float32) : a.abs.isFinite = a.isFinite := by
  rw [← isFinite_ofFloat32, ofFloat32_abs, ← isFinite_ofFloat32]
  cases ofFloat32 a <;> rfl

@[simp] theorem toRat_neg (a : Float32) : toRat (-a) = -toRat a := by
  rw [toRat, ofFloat32_neg, value_neg, toRat]

theorem value_abs (r : UnpackedFloat) : value r.abs = |value r| := by
  cases r with
  | finite sign m e hm =>
    rw [value, abs_mul, abs_factor, one_mul, abs_of_nonneg (by positivity)]
    exact one_mul _
  | _ => exact abs_zero.symm

@[simp] theorem toRat_abs (a : Float32) : toRat a.abs = |toRat a| := by
  rw [toRat, ofFloat32_abs, value_abs, toRat]

/-- A rounded number that stays finite in storage is stored as it is. -/
theorem store_of_isFinite (hr : Canonical spec r) (hf : (store spec r).isFinite = true) :
    store spec r = r := by
  cases r with
  | finite sign m e hm =>
    by_cases he : e ≤ maxExponent spec
    · exact store_finite hm hr he
    · rw [store_overflow hm (by omega)] at hf
      cases hf
  | infinity sign => exact store_infinity spec sign
  | notANumber => exact store_notANumber spec
  | zero sign => exact store_zero spec sign

theorem isFinite_store (hr : Canonical spec r) (hs : 2 ≤ spec.exponentBits)
    (hf : r.isFinite = true) (hv : |value r| < 2 ^ (spec.exponentBias + 1)) :
    (store spec r).isFinite = true := by
  cases r with
  | infinity sign => cases hf
  | notANumber => cases hf
  | zero sign => rw [store_zero]; rfl
  | finite sign m e hm =>
    by_cases he : e ≤ maxExponent spec
    · rw [store_finite hm hr he]
      rfl
    · exfalso
      have hfull := full_or_least hr
      have hmin := minExponent_eq spec
      have hbias := one_le_exponentBias hs
      have hbits : spec.mantissaBits = 1 + spec.mantissaBitsWithoutImplicit := rfl
      unfold maxExponent at he
      have hlog : (2 : ℚ) ^ m.log2 ≤ m := by exact_mod_cast Nat.log2_self_le hm.ne'
      rw [value, abs_mul, abs_factor, one_mul, abs_of_nonneg (by positivity)] at hv
      have hle : (2 : ℚ) ^ (spec.exponentBias + 1) ≤ m * 2 ^ e :=
        calc (2 : ℚ) ^ (spec.exponentBias + 1)
            = 2 ^ ((spec.exponentBias : ℤ) + 1) := by norm_cast
          _ ≤ 2 ^ ((m.log2 : ℤ) + e) := zpow_le_zpow_right₀ one_le_two (by omega)
          _ = 2 ^ m.log2 * 2 ^ e := by rw [zpow_add₀ two_ne_zero, zpow_natCast]
          _ ≤ m * 2 ^ e := mul_le_mul_of_nonneg_right hlog (by positivity)
      exact absurd hv (not_lt.mpr hle)

/-- `r` is `x` rounded to binary32: half a unit off at most. -/
def Near (x r : ℚ) : Prop := |r - x| ≤ |x| / 2 ^ 24 + 1 / 2 ^ 150

theorem near_of_rounds (h : Rounds .binary32 x r) : Near x (value r) := by
  have hn := h.near
  rw [Rat.cast_id] at hn
  refine hn.trans (max_le_add_of_nonneg (by positivity) (by positivity) |>.trans_eq ?_)
  norm_num [Format.mantissaBits, Format.minExponent]

theorem near_store (h : Rounds .binary32 x r) (hf : (store .binary32 r).isFinite = true) :
    Near x (value (store .binary32 r)) := by
  rw [store_of_isFinite h.canonical hf]
  exact near_of_rounds h

/-- Half of the range is far enough from its end for a rounded number to stay inside. -/
theorem isFinite_store_of_rounds (h : Rounds .binary32 x r) (hx : |x| ≤ 2 ^ 127) :
    (store .binary32 r).isFinite = true := by
  apply isFinite_store h.canonical (by decide) h.isFinite
  have hn := near_of_rounds h
  unfold Near at hn
  have hsub : |value r| ≤ |x| + |value r - x| := by
    linarith [abs_sub_abs_le_abs_sub (value r) x]
  norm_num [Format.exponentBias] at hn hx ⊢
  linarith

theorem isFinite_of_add (h : (a + b).isFinite = true) :
    a.isFinite = true ∧ b.isFinite = true := by
  rw [← isFinite_ofFloat32, ofFloat32_add] at h
  rw [← isFinite_ofFloat32, ← isFinite_ofFloat32]
  generalize ofFloat32 a = r at h ⊢
  generalize ofFloat32 b = s at h ⊢
  cases r <;> cases s <;> simp [UnpackedFloat.add, UnpackedFloat.isFinite] at h ⊢
  split_ifs at h <;> simp at h

theorem isFinite_of_mul (h : (a * b).isFinite = true) :
    a.isFinite = true ∧ b.isFinite = true := by
  rw [← isFinite_ofFloat32, ofFloat32_mul] at h
  rw [← isFinite_ofFloat32, ← isFinite_ofFloat32]
  generalize ofFloat32 a = r at h ⊢
  generalize ofFloat32 b = s at h ⊢
  cases r <;> cases s <;> simp [UnpackedFloat.mul, UnpackedFloat.isFinite] at h ⊢

theorem toRat_add (h : (a + b).isFinite = true) :
    Near (toRat a + toRat b) (toRat (a + b)) := by
  obtain ⟨ha, hb⟩ := isFinite_of_add h
  exact near_store (add_rounds (fits_ofFloat32 a).canonical (fits_ofFloat32 b).canonical ha hb) h

theorem toRat_mul (h : (a * b).isFinite = true) :
    Near (toRat a * toRat b) (toRat (a * b)) := by
  obtain ⟨ha, hb⟩ := isFinite_of_mul h
  exact near_store
    (mul_rounds (by decide) (fits_ofFloat32 a).canonical (fits_ofFloat32 b).canonical ha hb) h

theorem toRat_div (ha : a.isFinite = true) (hb : b.isFinite = true) (hz : toRat b ≠ 0)
    (h : (a / b).isFinite = true) : Near (toRat a / toRat b) (toRat (a / b)) :=
  near_store (div_rounds ha hb hz) h

theorem isFinite_mul (ha : a.isFinite = true) (hb : b.isFinite = true)
    (h : |toRat a * toRat b| ≤ 2 ^ 127) : (a * b).isFinite = true :=
  isFinite_store_of_rounds
    (mul_rounds (by decide) (fits_ofFloat32 a).canonical (fits_ofFloat32 b).canonical ha hb) h

theorem isFinite_div (ha : a.isFinite = true) (hb : b.isFinite = true) (hz : toRat b ≠ 0)
    (h : |toRat a / toRat b| ≤ 2 ^ 127) : (a / b).isFinite = true :=
  isFinite_store_of_rounds (div_rounds ha hb hz) h

/-- A finite root is one of a number that is not negative. -/
theorem sqrt_cases (h : a.sqrt.isFinite = true) :
    (∃ sign, ofFloat32 a = .zero sign ∧ ofFloat32 a.sqrt = .zero sign) ∨
      ∃ m e hm, ofFloat32 a = .finite .positive m e hm := by
  rw [← isFinite_ofFloat32, ofFloat32_sqrt] at h
  rw [ofFloat32_sqrt]
  generalize ofFloat32 a = r at h ⊢
  cases r with
  | infinity sign => cases sign <;> simp [UnpackedFloat.sqrt, UnpackedFloat.isFinite] at h
  | notANumber => simp [UnpackedFloat.sqrt, UnpackedFloat.isFinite] at h
  | zero sign => exact Or.inl ⟨sign, rfl, store_zero _ sign⟩
  | finite sign m e hm =>
    cases sign with
    | negative => simp [UnpackedFloat.sqrt, UnpackedFloat.isFinite] at h
    | positive => exact Or.inr ⟨m, e, hm, rfl⟩

theorem isFinite_of_sqrt (h : a.sqrt.isFinite = true) : a.isFinite = true := by
  rw [← isFinite_ofFloat32]
  rcases sqrt_cases h with ⟨sign, ha, -⟩ | ⟨m, e, hm, ha⟩ <;> rw [ha] <;> rfl

theorem toRat_nonneg_of_sqrt (h : a.sqrt.isFinite = true) : 0 ≤ toRat a := by
  unfold toRat
  rcases sqrt_cases h with ⟨sign, ha, -⟩ | ⟨m, e, hm, ha⟩ <;> rw [ha]
  · exact le_rfl
  · rw [value, factor]
    positivity

/-- A root has no underflow: its error is relative. -/
theorem toRat_sqrt (h : a.sqrt.isFinite = true) :
    |(toRat a.sqrt : ℝ) - √(toRat a : ℝ)| ≤ √(toRat a : ℝ) / 2 ^ 24 := by
  rcases sqrt_cases h with ⟨sign, ha, hs⟩ | ⟨m, e, hm, ha⟩
  · simp [toRat, ha, hs, value]
  · rw [← isFinite_ofFloat32, ofFloat32_sqrt, ha] at h
    have hr : Rounds .binary32 _ (UnpackedFloat.sqrt _ (.finite .positive m e hm)) := sqrt_rounds hm
    have hv : toRat a = m * 2 ^ e := by rw [toRat, ha, value, factor, one_mul]
    have hs : value (ofFloat32 a.sqrt) =
        value ((UnpackedFloat.finite .positive m e hm).sqrt .binary32) := by
      rw [ofFloat32_sqrt, ha, store_of_isFinite hr.canonical h]
    have hmin : -149 ≤ e := (full_or_least (ha ▸ (fits_ofFloat32 a).canonical)).1
    have hm1 : (1 : ℝ) ≤ m := by exact_mod_cast hm
    have hlow : (2 : ℝ) ^ (-75 : ℤ) ≤ √((m * 2 ^ e : ℚ) : ℝ) := by
      refine Real.le_sqrt_of_sq_le ?_
      push_cast
      calc ((2 : ℝ) ^ (-75 : ℤ)) ^ 2 ≤ 2 ^ (-149 : ℤ) := by norm_num
        _ ≤ 2 ^ e := zpow_le_zpow_right₀ one_le_two hmin
        _ ≤ m * 2 ^ e := le_mul_of_one_le_left (by positivity) hm1
    have hn := hr.near
    rw [toRat, hs, hv]
    refine hn.trans (max_le ?_ ?_)
    · rw [abs_of_nonneg (Real.sqrt_nonneg _)]
      norm_num [Format.mantissaBits]
    · refine le_trans ?_ (div_le_div_of_nonneg_right hlow (by positivity))
      norm_num [Format.minExponent, Format.mantissaBits]

theorem toRat_sqrt_nonneg (h : a.sqrt.isFinite = true) : 0 ≤ toRat a.sqrt := by
  have hroot := Real.sqrt_nonneg (toRat a : ℝ)
  have : (0 : ℝ) ≤ toRat a.sqrt := by linarith [(abs_le.mp (toRat_sqrt h)).1]
  exact_mod_cast this

/-- A smaller exponent means a smaller magnitude, since the larger significand is full. -/
theorem magnitude_lt {s₁ s₂ : Sign} {m₁ m₂ : ℕ} {e₁ e₂ : ℤ} {h₁ : 0 < m₁} {h₂ : 0 < m₂}
    (hc₁ : Canonical spec (.finite s₁ m₁ e₁ h₁)) (hc₂ : Canonical spec (.finite s₂ m₂ e₂ h₂))
    (he : e₁ < e₂) : (m₁ : ℚ) * 2 ^ e₁ < m₂ * 2 ^ e₂ := by
  have hf₁ := full_or_least hc₁
  have hf₂ := full_or_least hc₂
  have hlt : (m₁ : ℚ) < 2 ^ (m₁.log2 + 1) := by exact_mod_cast Nat.lt_log2_self
  have hle : (2 : ℚ) ^ m₂.log2 ≤ m₂ := by exact_mod_cast Nat.log2_self_le h₂.ne'
  calc (m₁ : ℚ) * 2 ^ e₁ < 2 ^ (m₁.log2 + 1) * 2 ^ e₁ :=
        mul_lt_mul_of_pos_right hlt (by positivity)
    _ = 2 ^ ((m₁.log2 : ℤ) + 1 + e₁) := by
        rw [zpow_add₀ two_ne_zero]
        norm_cast
    _ ≤ 2 ^ ((m₂.log2 : ℤ) + e₂) := zpow_le_zpow_right₀ one_le_two (by omega)
    _ = 2 ^ m₂.log2 * 2 ^ e₂ := by rw [zpow_add₀ two_ne_zero, zpow_natCast]
    _ ≤ m₂ * 2 ^ e₂ := mul_le_mul_of_nonneg_right hle (by positivity)

theorem compare_magnitudes {s₁ s₂ : Sign} {m₁ m₂ : ℕ} {e₁ e₂ : ℤ} {h₁ : 0 < m₁} {h₂ : 0 < m₂}
    (hc₁ : Canonical spec (.finite s₁ m₁ e₁ h₁)) (hc₂ : Canonical spec (.finite s₂ m₂ e₂ h₂)) :
    (compare e₁ e₂).then (compare m₁ m₂) = .lt ↔ (m₁ : ℚ) * 2 ^ e₁ < m₂ * 2 ^ e₂ := by
  rcases lt_trichotomy e₁ e₂ with he | he | he
  · rw [Int.compare_eq_lt.mpr he]
    exact iff_of_true rfl (magnitude_lt hc₁ hc₂ he)
  · subst he
    rw [Int.compare_eq_eq.mpr rfl, mul_lt_mul_iff_left₀ (by positivity), Nat.cast_lt]
    exact Nat.compare_eq_lt
  · rw [Int.compare_eq_gt.mpr he]
    exact iff_of_false (by simp) (magnitude_lt hc₂ hc₁ he).le.not_gt

theorem lt_iff_value (hr : Canonical spec r) (hs : Canonical spec s) (hrf : r.isFinite = true)
    (hsf : s.isFinite = true) : r.lt s = true ↔ value r < value s := by
  have hpos (m : ℕ) (e : ℤ) (hm : 0 < m) : (0 : ℚ) < m * 2 ^ e := by positivity
  cases r with
  | infinity _ => cases hrf
  | notANumber => cases hrf
  | zero s₁ =>
    cases s with
    | infinity _ => cases hsf
    | notANumber => cases hsf
    | zero s₂ => simp [UnpackedFloat.lt, UnpackedFloat.compare, value]
    | finite s₂ m₂ e₂ h₂ =>
      have := hpos m₂ e₂ h₂
      cases s₂ <;> simp [UnpackedFloat.lt, UnpackedFloat.compare, value, factor] <;> linarith
  | finite s₁ m₁ e₁ h₁ =>
    have hp₁ := hpos m₁ e₁ h₁
    cases s with
    | infinity _ => cases hsf
    | notANumber => cases hsf
    | zero s₂ =>
      cases s₁ <;> simp [UnpackedFloat.lt, UnpackedFloat.compare, value, factor] <;> linarith
    | finite s₂ m₂ e₂ h₂ =>
      have hp₂ := hpos m₂ e₂ h₂
      cases s₁ <;> cases s₂ <;> simp only [UnpackedFloat.lt, UnpackedFloat.compare, value, factor]
      · have hswap : ((compare e₁ e₂).then (compare m₁ m₂)).swap =
            (compare e₂ e₁).then (compare m₂ m₁) := by
          rw [Ordering.swap_then, Int.compare_swap, Nat.compare_swap]
        rw [hswap]
        simpa using compare_magnitudes hs hr
      · simp
        linarith
      · simp
        linarith
      · simpa using compare_magnitudes hr hs

theorem lt_iff_lt (a b : Float32) : a < b ↔ (ofFloat32 a).lt (ofFloat32 b) = true :=
  decide_eq_true_iff

theorem lt_iff_toRat (ha : a.isFinite = true) (hb : b.isFinite = true) :
    a < b ↔ toRat a < toRat b :=
  (lt_iff_lt a b).trans
    (lt_iff_value (fits_ofFloat32 a).canonical (fits_ofFloat32 b).canonical ha hb)

theorem isNaN_of_isFinite (h : a.isFinite = true) : a.isNaN = false := by
  change (ofFloat32 a).isNaN = false
  rw [← isFinite_ofFloat32] at h
  cases hr : ofFloat32 a <;> rw [hr] at h
  · cases h
  · cases h
  · rfl
  · rfl

theorem toRat_largerFloat (ha : a.isFinite = true) (hb : b.isFinite = true) :
    toRat (Numeric.largerFloat a b) = max (toRat a) (toRat b) := by
  rw [Numeric.largerFloat, isNaN_of_isFinite ha, isNaN_of_isFinite hb]
  simp only [Bool.false_eq_true, ↓reduceIte]
  split
  · next h => exact (max_eq_right ((lt_iff_toRat ha hb).mp h).le).symm
  · next h => exact (max_eq_left (not_lt.mp (mt (lt_iff_toRat ha hb).mpr h))).symm

theorem isFinite_largerFloat (ha : a.isFinite = true) (hb : b.isFinite = true) :
    (Numeric.largerFloat a b).isFinite = true := by
  unfold Numeric.largerFloat
  split_ifs <;> assumption

/-! The constants of attitude algebra. -/

theorem toRat_constants : toRat 0.0 = 0 ∧ toRat 1.0 = 1 ∧ toRat 0.5 = 1 / 2 ∧
    toRat 1e-10 = 14411519 / 2 ^ 57 := by decide +kernel

theorem isFinite_constants : (0.0 : Float32).isFinite ∧ (1.0 : Float32).isFinite ∧
    (0.5 : Float32).isFinite ∧ (1e-10 : Float32).isFinite := by decide +kernel

@[simp] theorem toRat_zero : toRat 0.0 = 0 := toRat_constants.1
@[simp] theorem toRat_one : toRat 1.0 = 1 := toRat_constants.2.1
@[simp] theorem toRat_half : toRat 0.5 = 1 / 2 := toRat_constants.2.2.1
@[simp] theorem isFinite_zero : (0.0 : Float32).isFinite = true := isFinite_constants.1
@[simp] theorem isFinite_one : (1.0 : Float32).isFinite = true := isFinite_constants.2.1
@[simp] theorem isFinite_half : (0.5 : Float32).isFinite = true := isFinite_constants.2.2.1

/-- The least length that counts is a little above `10 ^ -10`. -/
theorem toRat_negligible : toRat 1e-10 = 14411519 / 2 ^ 57 := toRat_constants.2.2.2

theorem isFinite_negligible : (1e-10 : Float32).isFinite = true := isFinite_constants.2.2.2

/-- The range of binary32. -/
theorem abs_value_lt (hf : Fits .binary32 r) : |value r| < 2 ^ 128 := by
  cases r with
  | finite sign m e hm =>
    have he := hf.bounded _ _ _ _ rfl
    have hl := full_or_least hf.canonical
    have hlt : (m : ℚ) < 2 ^ (m.log2 + 1) := by exact_mod_cast Nat.lt_log2_self
    rw [value, abs_mul, abs_factor, one_mul, abs_of_nonneg (by positivity)]
    calc (m : ℚ) * 2 ^ e < 2 ^ (m.log2 + 1) * 2 ^ e :=
          mul_lt_mul_of_pos_right hlt (by positivity)
      _ = 2 ^ ((m.log2 : ℤ) + 1 + e) := by
          rw [zpow_add₀ two_ne_zero]
          norm_cast
      _ ≤ 2 ^ (128 : ℤ) := by
          refine zpow_le_zpow_right₀ one_le_two ?_
          simp [maxExponent, Format.exponentBias, Format.mantissaBits, Format.minExponent] at he hl
          omega
      _ = 2 ^ 128 := by norm_num
  | _ => simp [value]

theorem abs_toRat_lt (a : Float32) : |toRat a| < 2 ^ 128 := abs_value_lt (fits_ofFloat32 a)

/-- Dividing by what has no value gives no finite number. -/
theorem toRat_ne_zero_of_div (h : (a / b).isFinite = true) (ha : a.isFinite = true)
    (hb : b.isFinite = true) : toRat b ≠ 0 := by
  rw [← isFinite_ofFloat32, ofFloat32_div] at h
  rw [← isFinite_ofFloat32] at ha hb
  unfold toRat
  generalize ofFloat32 a = r at h ha
  generalize ofFloat32 b = s at h hb ⊢
  cases s with
  | infinity _ => cases hb
  | notANumber => cases hb
  | zero _ => cases r <;> simp [UnpackedFloat.div, UnpackedFloat.isFinite] at h ha
  | finite sign m e hm =>
    rw [value]
    have : factor sign ≠ 0 := by cases sign <;> simp [factor]
    positivity

end Strapdown.Binary
