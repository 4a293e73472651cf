import Strapdown.Proofs.Binary.Nearest

/-!
Finite numbers below powers of two. Rounding does not cross a power of two, so such bounds add up
without an error term.
-/
namespace Strapdown.Binary
open Float.Model (Format UnpackedFloat)

variable {spec : Format} {r s : UnpackedFloat} {a b low high m : Float32} {j k : ℤ} {x : ℚ}

theorem le_eq_not_lt (hr : r.isFinite = true) (hs : s.isFinite = true) : r.le s = !s.lt r := by
  cases r with
  | infinity _ => cases hr
  | notANumber => cases hr
  | zero _ =>
    cases s with
    | infinity _ => cases hs
    | notANumber => cases hs
    | zero _ => rfl
    | finite sign _ _ _ => cases sign <;> rfl
  | finite s₁ m₁ e₁ _ =>
    cases s with
    | infinity _ => cases hs
    | notANumber => cases hs
    | zero _ => cases s₁ <;> rfl
    | finite s₂ m₂ e₂ _ =>
      have hswap : (compare e₂ e₁).then (compare m₂ m₁) =
          ((compare e₁ e₂).then (compare m₁ m₂)).swap := by
        rw [Ordering.swap_then, Int.compare_swap, Nat.compare_swap]
      cases s₁ <;> cases s₂ <;>
        simp only [UnpackedFloat.le, UnpackedFloat.lt, UnpackedFloat.compare, hswap]
      · cases (compare e₁ e₂).then (compare m₁ m₂) <;> rfl
      · rfl
      · rfl
      · cases (compare e₁ e₂).then (compare m₁ m₂) <;> rfl

theorem le_iff_toRat (ha : a.isFinite = true) (hb : b.isFinite = true) :
    a ≤ b ↔ toRat a ≤ toRat b := by
  have hle : a ≤ b ↔ (ofFloat32 a).le (ofFloat32 b) = true := decide_eq_true_iff
  rw [← isFinite_ofFloat32] at ha hb
  rw [hle, le_eq_not_lt ha hb, Bool.not_eq_true', ← Bool.not_eq_true,
    lt_iff_value (fits_ofFloat32 b).canonical (fits_ofFloat32 a).canonical hb ha, not_lt]
  rfl

theorem Rounds.nonneg (h : Rounds spec x r) (hx : 0 ≤ x) : 0 ≤ value r := by
  obtain ⟨n, t, hv, -, hn, -⟩ := h.nearest
  have hpos : (0 : ℚ) < 2 ^ t := by positivity
  have hdiv : 0 ≤ x / 2 ^ t := div_nonneg hx hpos.le
  have hlt : (-1 : ℚ) < n := by linarith [(abs_le.mp hn).1]
  have hn0 : 0 ≤ n := by
    have : (-1 : ℤ) < n := by exact_mod_cast hlt
    omega
  rw [hv]
  exact mul_nonneg (Int.cast_nonneg hn0) hpos.le

theorem Rounds.magnitude_le (h : Rounds spec x r) (hk : spec.minExponent ≤ k) (hx : |x| ≤ 2 ^ k) :
    |value r| ≤ 2 ^ k := by
  have hlt : |x| < 2 ^ (k + spec.mantissaBits) := by
    have hbits := two_le_mantissaBits spec
    exact hx.trans_lt (zpow_lt_zpow_right₀ one_lt_two (by omega))
  rw [abs_le] at hx ⊢
  constructor
  · simpa using h.le_of_ge (k := -1) hk hlt (by simpa using hx.1)
  · simpa using h.le_of_le (k := 1) hk hlt (by simpa using hx.2)

/-- A finite number of magnitude at most `2 ^ k`. -/
structure Bounded (k : ℤ) (a : Float32) : Prop where
  isFinite : a.isFinite = true
  abs_le : |toRat a| ≤ 2 ^ k

theorem bounded_mono (h : Bounded j a) (hjk : j ≤ k) : Bounded k a :=
  ⟨h.isFinite, h.abs_le.trans (zpow_le_zpow_right₀ one_le_two hjk)⟩

theorem bounded_neg (h : Bounded k a) : Bounded k (-a) := by
  refine ⟨(isFinite_neg a).trans h.isFinite, ?_⟩
  rw [toRat_neg, abs_neg]
  exact h.abs_le

/-- What a bounded number is rounded to, unless the bound is out of range. -/
theorem bounded_store (h : Rounds .binary32 x r) (hk : -149 ≤ k ∧ k ≤ 127) (hx : |x| ≤ 2 ^ k) :
    (store .binary32 r).isFinite = true ∧ |value (store .binary32 r)| ≤ 2 ^ k := by
  have hr := h.magnitude_le hk.1 hx
  have hfin : (store .binary32 r).isFinite = true := by
    apply isFinite_store h.canonical (by decide) h.isFinite
    have hmax : (2 : ℚ) ^ k ≤ 2 ^ (127 : ℤ) := zpow_le_zpow_right₀ one_le_two hk.2
    refine (hr.trans hmax).trans_lt ?_
    norm_num [Format.exponentBias]
  rw [store_of_isFinite h.canonical hfin]
  exact ⟨h.isFinite, hr⟩

theorem bounded_add (ha : Bounded k a) (hb : Bounded k b) (hk : -149 ≤ k + 1 ∧ k + 1 ≤ 127) :
    Bounded (k + 1) (a + b) := by
  have hsum : |toRat a + toRat b| ≤ 2 ^ (k + 1) := by
    rw [zpow_add_one₀ two_ne_zero]
    linarith [abs_add_le (toRat a) (toRat b), ha.abs_le, hb.abs_le]
  obtain ⟨hfin, hle⟩ := bounded_store (add_rounds (fits_ofFloat32 a).canonical
    (fits_ofFloat32 b).canonical ha.isFinite hb.isFinite) hk hsum
  exact ⟨hfin, hle⟩

theorem bounded_sub (ha : Bounded k a) (hb : Bounded k b) (hk : -149 ≤ k + 1 ∧ k + 1 ≤ 127) :
    Bounded (k + 1) (a - b) := by
  have hdiff : |toRat a - toRat b| ≤ 2 ^ (k + 1) := by
    rw [zpow_add_one₀ two_ne_zero]
    linarith [abs_sub (toRat a) (toRat b), ha.abs_le, hb.abs_le]
  obtain ⟨hfin, hle⟩ := bounded_store (sub_rounds (fits_ofFloat32 a).canonical
    (fits_ofFloat32 b).canonical ha.isFinite hb.isFinite) hk hdiff
  exact ⟨hfin, hle⟩

theorem bounded_mul (ha : Bounded j a) (hb : Bounded k b) (hk : -149 ≤ j + k ∧ j + k ≤ 127) :
    Bounded (j + k) (a * b) := by
  have hprod : |toRat a * toRat b| ≤ 2 ^ (j + k) := by
    rw [abs_mul, zpow_add₀ two_ne_zero]
    exact mul_le_mul ha.abs_le hb.abs_le (abs_nonneg _) (by positivity)
  obtain ⟨hfin, hle⟩ := bounded_store (mul_rounds (by decide) (fits_ofFloat32 a).canonical
    (fits_ofFloat32 b).canonical ha.isFinite hb.isFinite) hk hprod
  exact ⟨hfin, hle⟩

theorem bounded_div (ha : Bounded j a) (hb : b.isFinite = true) (hlow : 2 ^ k ≤ |toRat b|)
    (hk : -149 ≤ j - k ∧ j - k ≤ 127) : Bounded (j - k) (a / b) := by
  have hpos : 0 < |toRat b| := lt_of_lt_of_le (by positivity) hlow
  have hquot : |toRat a / toRat b| ≤ 2 ^ (j - k) := by
    rw [abs_div, zpow_sub₀ two_ne_zero]
    exact div_le_div₀ (by positivity) ha.abs_le (by positivity) hlow
  obtain ⟨hfin, hle⟩ := bounded_store
    (div_rounds ha.isFinite hb (abs_pos.mp hpos)) hk hquot
  exact ⟨hfin, hle⟩

theorem rounds_add (h : (a + b).isFinite = true) :
    Rounds .binary32 (toRat a + toRat b) (ofFloat32 (a + b)) := by
  obtain ⟨ha, hb⟩ := isFinite_of_add h
  have hr := add_rounds (fits_ofFloat32 a).canonical (fits_ofFloat32 b).canonical ha hb
  rw [← isFinite_ofFloat32, ofFloat32_add] at h
  rw [ofFloat32_add, store_of_isFinite hr.canonical h]
  exact hr

theorem rounds_mul (h : (a * b).isFinite = true) :
    Rounds .binary32 (toRat a * toRat b) (ofFloat32 (a * b)) := by
  obtain ⟨ha, hb⟩ := isFinite_of_mul h
  have hr : Rounds .binary32 _ _ :=
    mul_rounds (by decide) (fits_ofFloat32 a).canonical (fits_ofFloat32 b).canonical ha hb
  rw [← isFinite_ofFloat32, ofFloat32_mul] at h
  rw [ofFloat32_mul, store_of_isFinite hr.canonical h]
  exact hr

theorem toRat_add_nonneg (h : (a + b).isFinite = true) (hx : 0 ≤ toRat a + toRat b) :
    0 ≤ toRat (a + b) :=
  (rounds_add h).nonneg hx

theorem toRat_mul_self_nonneg (h : (a * a).isFinite = true) : 0 ≤ toRat (a * a) :=
  (rounds_mul h).nonneg (mul_self_nonneg _)

/-- What is far inside the range is rounded to a number in it. -/
theorem Rounds.abs_lt {y : ℝ} (h : Rounds .binary32 y r) (hy : |y| ≤ 2 ^ 64) :
    |value r| < 2 ^ 128 := by
  have hmax : max (|y| / 2 ^ Format.binary32.mantissaBits)
      (2 ^ Format.binary32.minExponent / 2) ≤ (2 : ℝ) ^ 64 := by
    apply max_le
    · exact (div_le_self (abs_nonneg y) (one_le_pow₀ one_le_two)).trans hy
    · norm_num [Format.minExponent, Format.mantissaBits]
  have hnear := h.near.trans hmax
  have hsub := abs_sub_abs_le_abs_sub (value r : ℝ) y
  rw [← Rat.cast_lt (K := ℝ)]
  push_cast
  linarith

/-- A root stays far inside the range. -/
theorem isFinite_sqrt (ha : a.isFinite = true) (hnn : 0 ≤ toRat a) : a.sqrt.isFinite = true := by
  have hlt := abs_toRat_lt a
  rw [← isFinite_ofFloat32] at ha ⊢
  rw [ofFloat32_sqrt]
  unfold toRat at hnn hlt
  cases hr : ofFloat32 a with
  | infinity _ => rw [hr] at ha; cases ha
  | notANumber => rw [hr] at ha; cases ha
  | zero sign => exact congrArg UnpackedFloat.isFinite (store_zero .binary32 sign)
  | finite sign m e hm =>
    rw [hr] at hnn hlt
    have hmag : (0 : ℚ) < m * 2 ^ e := by positivity
    cases sign with
    | negative =>
      rw [value, factor] at hnn
      linarith
    | positive =>
      rw [value, factor, one_mul, abs_of_pos hmag] at hlt
      have hroot : Rounds .binary32 _ (UnpackedFloat.sqrt _ (.finite .positive m e hm)) :=
        sqrt_rounds hm
      refine isFinite_store hroot.canonical (by decide) hroot.isFinite (hroot.abs_lt ?_)
      rw [abs_of_nonneg (Real.sqrt_nonneg _), Real.sqrt_le_left (by positivity)]
      have hcast : ((m * 2 ^ e : ℚ) : ℝ) ≤ (2 ^ 128 : ℚ) := Rat.cast_le.mpr hlt.le
      refine hcast.trans ?_
      norm_num

/-- A finite number of an interval. -/
def Between (low high a : Float32) : Prop := a.isFinite = true ∧ low ≤ a ∧ a ≤ high

instance : Decidable (Between low high a) := inferInstanceAs (Decidable (_ ∧ _))

theorem between_iff (hlow : low.isFinite = true) (hhigh : high.isFinite = true) :
    Between low high a ↔
      a.isFinite = true ∧ toRat low ≤ toRat a ∧ toRat a ≤ toRat high := by
  unfold Between
  constructor
  · rintro ⟨ha, hl, hh⟩
    exact ⟨ha, (le_iff_toRat hlow ha).mp hl, (le_iff_toRat ha hhigh).mp hh⟩
  · rintro ⟨ha, hl, hh⟩
    exact ⟨ha, (le_iff_toRat hlow ha).mpr hl, (le_iff_toRat ha hhigh).mpr hh⟩

theorem between_neg_iff (hm : m.isFinite = true) :
    Between (-m) m a ↔ a.isFinite = true ∧ |toRat a| ≤ toRat m := by
  rw [between_iff ((isFinite_neg m).trans hm) hm, toRat_neg, abs_le]

theorem bounded_of_between (hm : m.isFinite = true) (hk : toRat m ≤ 2 ^ k)
    (h : Between (-m) m a) : Bounded k a := by
  obtain ⟨ha, hle⟩ := (between_neg_iff hm).mp h
  exact ⟨ha, hle.trans hk⟩

theorem between_clamp (f : Elementary) (hlow : low.isFinite = true) (hhigh : high.isFinite = true)
    (hle : toRat low ≤ toRat high) (ha : a.isFinite = true) :
    Between low high (@Numeric.clamp _ f.numeric low high a) := by
  rw [between_iff hlow hhigh]
  unfold Numeric.clamp
  split_ifs with hbelow habove
  · exact ⟨hlow, le_rfl, hle⟩
  · exact ⟨hhigh, hle, le_rfl⟩
  · have hbelow' : ¬ a < low := mt (decide_eq_true (p := a < low)) hbelow
    have habove' : ¬ high < a := mt (decide_eq_true (p := high < a)) habove
    rw [lt_iff_toRat ha hlow, not_lt] at hbelow'
    rw [lt_iff_toRat hhigh ha, not_lt] at habove'
    exact ⟨ha, hbelow', habove'⟩

theorem between_clamp_one (f : Elementary) (ha : a.isFinite = true) :
    Between (-1.0) 1.0 (@Numeric.clamp _ f.numeric (-1.0) 1.0 a) := by
  refine between_clamp f ((isFinite_neg 1.0).trans isFinite_one) isFinite_one ?_ ha
  rw [toRat_neg, toRat_one]
  norm_num

end Strapdown.Binary
