import Strapdown.Proofs.Binary.Arithmetic

/-! What rounds to a binary number, and what rounding cannot cross. -/
namespace Strapdown.Binary
open Float.Model (Format UnpackedFloat)
open Float.Model.UnpackedFloat

variable {spec : Format} {sign : Sign} {r s : UnpackedFloat} {x : ℚ} {m n : ℕ} {e j k t t' : ℤ}

theorem Ulp.le (h : Ulp spec x t) (hj : spec.minExponent ≤ j)
    (hx : |x| < 2 ^ (j + spec.mantissaBits)) : t ≤ j := by
  rcases h.2.2 with rfl | ht
  · exact hj
  · have := (zpow_lt_zpow_iff_right₀ one_lt_two).mp (ht.trans_lt hx)
    omega

theorem Ulp.unique (h : Ulp spec x t) (h' : Ulp spec x t') : t = t' :=
  le_antisymm (h.le h'.1 h'.2.1) (h'.le h.1 h.2.1)

theorem nearest_unique {a b : ℤ} (ha : |(a : ℚ) - x| ≤ 1 / 2) (ha' : |(a : ℚ) - x| = 1 / 2 → Even a)
    (hb : |(b : ℚ) - x| ≤ 1 / 2) (hb' : |(b : ℚ) - x| = 1 / 2 → Even b) : a = b := by
  rw [abs_le] at ha hb
  have hab : (a : ℚ) ≤ (b + 1 : ℤ) := by push_cast; linarith
  have hba : (b : ℚ) ≤ (a + 1 : ℤ) := by push_cast; linarith
  rw [Int.cast_le] at hab hba
  by_contra hne
  have hodd : ¬ (Even a ∧ Even b) := by
    rintro ⟨⟨p, rfl⟩, ⟨q, rfl⟩⟩
    omega
  apply hodd
  rcases Int.lt_or_gt_of_ne hne with hlt | hgt
  · have heq : (b : ℚ) = a + 1 := by exact_mod_cast (by omega : b = a + 1)
    constructor
    · refine ha' ?_
      rw [abs_of_nonpos] <;> linarith
    · refine hb' ?_
      rw [abs_of_nonneg] <;> linarith
  · have heq : (a : ℚ) = b + 1 := by exact_mod_cast (by omega : a = b + 1)
    constructor
    · refine ha' ?_
      rw [abs_of_nonneg] <;> linarith
    · refine hb' ?_
      rw [abs_of_nonpos] <;> linarith

theorem Rounds.value_unique (h : Rounds spec x r) (h' : Rounds spec x s) :
    value r = value s := by
  obtain ⟨a, t, hr, ht, ha, ha'⟩ := h.nearest
  obtain ⟨b, t', hs, ht', hb, hb'⟩ := h'.nearest
  obtain rfl := ht.unique ht'
  rw [hr, hs, nearest_unique ha ha' hb hb']

theorem eq_of_value (hr : Canonical spec r) (hs : Canonical spec s) (hrf : r.isFinite = true)
    (hsf : s.isFinite = true) (hv : value r = value s) (hne : value r ≠ 0) : r = s := by
  cases r with
  | infinity _ => cases hrf
  | notANumber => cases hrf
  | zero _ => exact absurd rfl hne
  | finite s₁ m₁ e₁ h₁ =>
    cases s with
    | infinity _ => cases hsf
    | notANumber => cases hsf
    | zero _ => exact absurd hv hne
    | finite s₂ m₂ e₂ h₂ =>
      have hu := ulp_of_canonical hr
      rw [hv] at hu
      obtain rfl := hu.unique (ulp_of_canonical hs)
      have hpos₁ : (0 : ℚ) < m₁ * 2 ^ e₁ := by positivity
      have hpos₂ : (0 : ℚ) < m₂ * 2 ^ e₁ := by positivity
      have hmant : s₁ = s₂ ∧ (m₁ : ℚ) * 2 ^ e₁ = m₂ * 2 ^ e₁ := by
        cases s₁ <;> cases s₂ <;> simp only [value, factor] at hv
        · exact ⟨rfl, by linarith⟩
        · linarith
        · linarith
        · exact ⟨rfl, by linarith⟩
      obtain ⟨rfl, hmul⟩ := hmant
      have hm := mul_right_cancel₀ (by positivity) hmul
      rw [Nat.cast_inj] at hm
      subst hm
      rfl

theorem Rounds.unique (h : Rounds spec x r) (h' : Rounds spec x s) (hne : value r ≠ 0) : r = s :=
  eq_of_value h.canonical h'.canonical h.isFinite h'.isFinite (h.value_unique h') hne

theorem two_zpow_eq (h : t ≤ j) : (2 : ℚ) ^ j = (2 ^ (j - t).toNat : ℤ) * 2 ^ t := by
  push_cast
  rw [← zpow_natCast, ← zpow_add₀ two_ne_zero]
  congr 1
  omega

/-- A number below a multiple of a unit as large as its own stays below it when it is rounded. -/
theorem Rounds.le_of_le (h : Rounds spec x r) (hj : spec.minExponent ≤ j)
    (hx : |x| < 2 ^ (j + spec.mantissaBits)) (hle : x ≤ k * 2 ^ j) : value r ≤ k * 2 ^ j := by
  obtain ⟨n, t, hv, ht, hn, -⟩ := h.nearest
  have htj := ht.le hj hx
  have hpos : (0 : ℚ) < 2 ^ t := by positivity
  rw [two_zpow_eq htj, ← mul_assoc, ← Int.cast_mul] at hle ⊢
  rw [← div_le_iff₀ hpos] at hle
  rw [hv]
  refine mul_le_mul_of_nonneg_right (Int.cast_le.mpr ?_) hpos.le
  rw [abs_le] at hn
  have : (n : ℚ) < (k * 2 ^ (j - t).toNat + 1 : ℤ) := by
    push_cast at hle ⊢
    linarith
  exact Int.lt_add_one_iff.mp (Int.cast_lt.mp this)

theorem Rounds.le_of_ge (h : Rounds spec x r) (hj : spec.minExponent ≤ j)
    (hx : |x| < 2 ^ (j + spec.mantissaBits)) (hle : k * 2 ^ j ≤ x) : k * 2 ^ j ≤ value r := by
  obtain ⟨n, t, hv, ht, hn, -⟩ := h.nearest
  have htj := ht.le hj hx
  have hpos : (0 : ℚ) < 2 ^ t := by positivity
  rw [two_zpow_eq htj, ← mul_assoc, ← Int.cast_mul] at hle ⊢
  rw [← le_div_iff₀ hpos] at hle
  rw [hv]
  refine mul_le_mul_of_nonneg_right (Int.cast_le.mpr ?_) hpos.le
  rw [abs_le] at hn
  have : ((k * 2 ^ (j - t).toNat : ℤ) : ℚ) < (n + 1 : ℤ) := by
    push_cast at hle ⊢
    linarith
  exact Int.lt_add_one_iff.mp (Int.cast_lt.mp this)

/-- Rounding moves a number by half of any unit that is as large as its own. -/
theorem Rounds.near_unit (h : Rounds spec x r) (hj : spec.minExponent ≤ j)
    (hx : |x| < 2 ^ (j + spec.mantissaBits)) : |value r - x| ≤ 2 ^ (j - 1) := by
  obtain ⟨n, t, hv, ht, hn, -⟩ := h.nearest
  have htj := ht.le hj hx
  have hpos : (0 : ℚ) < 2 ^ t := by positivity
  have hdist : |(value r : ℚ) - x| = |(n : ℚ) - x / 2 ^ t| * 2 ^ t := by
    rw [hv, ← abs_of_pos hpos, ← abs_mul, abs_of_pos hpos, sub_mul, div_mul_cancel₀ _ hpos.ne']
  rw [hdist, zpow_sub_one₀ two_ne_zero, ← one_div, mul_comm]
  have hmono : (2 : ℚ) ^ t ≤ 2 ^ j := zpow_le_zpow_right₀ one_le_two htj
  exact mul_le_mul hmono hn (abs_nonneg _) (by positivity)

theorem Rounds.value_ne_zero (h : Rounds spec x r) (hx : 2 ^ spec.minExponent ≤ |x|) :
    value r ≠ 0 := by
  obtain ⟨n, t, hv, ht, hn, -⟩ := h.nearest
  have hpos : (0 : ℚ) < 2 ^ t := by positivity
  intro hz
  have hn0 : n = 0 := by
    rw [hv, mul_eq_zero, Int.cast_eq_zero] at hz
    exact hz.resolve_right hpos.ne'
  rw [hn0, Int.cast_zero, zero_sub, abs_neg, abs_div, abs_of_pos hpos, div_le_iff₀ hpos] at hn
  have hbits := two_le_mantissaBits spec
  have hle : (2 : ℚ) ^ t ≤ |x| := by
    rcases ht.2.2 with rfl | hbig
    · exact hx
    · exact (zpow_le_zpow_right₀ one_le_two (by omega)).trans hbig
  linarith

end Strapdown.Binary
