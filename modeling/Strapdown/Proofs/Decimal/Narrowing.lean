import Strapdown.Proofs.Binary.Nearest
import Strapdown.Proofs.Decimal.Shortest

/-! Decimals that round to a binary32 number, by way of binary64. -/
namespace Strapdown.Decimal
open Float.Model (Format UnpackedFloat)
open Float.Model.UnpackedFloat
open Strapdown.Binary

variable {spec : Format} {sign : Sign} {m : ℕ} {e : ℤ} {hm : 0 < m} {z : ℚ}

theorem low_eq (spec : Format) (m : ℕ) (e : ℤ) : (targetIn spec m e).low =
    (m - if (targetIn spec m e).closeBelow then 1 / 4 else 1 / 2) * 2 ^ e := by
  have hunit : (2 : ℚ) ^ (e - 2) = 2 ^ e / 4 := by
    rw [zpow_sub₀ two_ne_zero]
    norm_num
  rw [Target.low]
  change (4 * (m : ℚ) - _) * 2 ^ (e - 2) = _
  rw [hunit]
  split <;> ring

theorem high_eq (spec : Format) (m : ℕ) (e : ℤ) :
    (targetIn spec m e).high = (m + 1 / 2) * 2 ^ e := by
  have hunit : (2 : ℚ) ^ (e - 2) = 2 ^ e / 4 := by
    rw [zpow_sub₀ two_ne_zero]
    norm_num
  rw [Target.high]
  change (4 * (m : ℚ) + 2) * 2 ^ (e - 2) = _
  rw [hunit]
  ring

theorem lt_two_pow (hc : Canonical spec (.finite sign m e hm)) : m < 2 ^ spec.mantissaBits := by
  have hfull := full_or_least hc
  exact Nat.lt_log2_self.trans_le (Nat.pow_le_pow_right two_pos (by omega))

theorem closeBelow_iff (spec : Format) (m : ℕ) (e : ℤ) : (targetIn spec m e).closeBelow = true ↔
    m = 2 ^ (spec.mantissaBits - 1) ∧ spec.minExponent < e := by
  have hbits := two_le_mantissaBits spec
  have hexp : ((spec.mantissaBits : ℤ) - 1).toNat = spec.mantissaBits - 1 := by omega
  simp [targetIn, power, hexp]

theorem low_pos (spec : Format) (hm : 0 < m) (e : ℤ) : 0 < (targetIn spec m e).low := by
  have hm' : (1 : ℚ) ≤ m := by exact_mod_cast hm
  rw [low_eq]
  refine mul_pos ?_ (by positivity)
  split <;> linarith

theorem rounds_of_nearest {n : ℕ} {t : ℤ} (hc : Canonical spec (.finite sign m e hm))
    (hv : (m : ℚ) * 2 ^ e = n * 2 ^ t) (ht : Ulp spec z t) (hn : |(n : ℚ) - z / 2 ^ t| ≤ 1 / 2)
    (heven : |(n : ℚ) - z / 2 ^ t| = 1 / 2 → Even n) :
    Rounds spec (factor sign * z) (.finite sign m e hm) := by
  obtain ⟨u, hu, hone⟩ := cast_factor sign
  have habs : |(u : ℚ)| = 1 := by rcases hone with rfl | rfl <;> simp
  have hdist : |((u * n : ℤ) : ℚ) - u * z / 2 ^ t| = |(n : ℚ) - z / 2 ^ t| := by
    rw [Int.cast_mul, mul_div_assoc, ← mul_sub, abs_mul, habs, one_mul, Int.cast_natCast]
  refine ⟨hc, rfl, u * n, t, ?_, ?_, ?_⟩
  · rw [Binary.value, hu, hv]
    push_cast
    ring
  · rw [hu, Ulp, abs_mul, habs, one_mul]
    exact ht
  · rw [hu]
    refine ⟨hdist.trans_le hn, fun hhalf => ?_⟩
    have hn' : Even (n : ℤ) := by exact_mod_cast heven (hdist.symm.trans hhalf)
    exact hn'.mul_left u

/-- The interval of a target, in units of its last place. -/
theorem scaled_of_holds (h : (targetIn spec m e).Holds z) :
    m - (if (targetIn spec m e).closeBelow then 1 / 4 else 1 / 2) ≤ z / 2 ^ e ∧
      z / 2 ^ e ≤ m + 1 / 2 ∧
      (m % 2 = 1 → m - (if (targetIn spec m e).closeBelow then 1 / 4 else 1 / 2) < z / 2 ^ e ∧
        z / 2 ^ e < m + 1 / 2) := by
  have hpos : (0 : ℚ) < 2 ^ e := by positivity
  obtain ⟨hlow, hhigh, hodd⟩ := h
  rw [low_eq] at hlow hodd
  rw [high_eq] at hhigh hodd
  rw [← lt_div_iff₀ hpos, ← div_lt_iff₀ hpos] at hodd
  exact ⟨(le_div_iff₀ hpos).mpr hlow, (div_le_iff₀ hpos).mpr hhigh, hodd⟩

/-- In the binade of the target, its interval is half a unit to both sides at most. -/
theorem rounds_of_same (hc : Canonical spec (.finite sign m e hm))
    (h : (targetIn spec m e).Holds z)
    (hsame : e = spec.minExponent ∨ 2 ^ (e + spec.mantissaBits - 1) ≤ z) :
    Rounds spec (factor sign * z) (.finite sign m e hm) := by
  have hpos : (0 : ℚ) < 2 ^ e := by positivity
  have hz : |z| = z := abs_of_pos ((low_pos spec hm e).trans_le h.1)
  have hlt : (m + 1 : ℚ) ≤ 2 ^ spec.mantissaBits := by exact_mod_cast lt_two_pow hc
  obtain ⟨hlow, hhigh, hodd⟩ := scaled_of_holds h
  refine rounds_of_nearest hc rfl ⟨(full_or_least hc).1, ?_, hz.symm ▸ hsame⟩ ?_ ?_
  · rw [hz, add_comm, zpow_add₀ two_ne_zero, zpow_natCast, ← div_lt_iff₀ hpos]
    linarith
  · rw [abs_le]
    split at hlow <;> constructor <;> linarith
  · intro hhalf
    by_contra hne
    rw [Nat.not_even_iff] at hne
    obtain ⟨hlow', hhigh'⟩ := hodd hne
    have hstrict : |(m : ℚ) - z / 2 ^ e| < 1 / 2 := by
      rw [abs_lt]
      split at hlow' <;> constructor <;> linarith
    exact hstrict.ne hhalf

/-- Only the interval of a power of two reaches below the binade of its target. -/
theorem eq_power_of_below (hc : Canonical spec (.finite sign m e hm))
    (h : (targetIn spec m e).Holds z) (he : e ≠ spec.minExponent)
    (hbelow : z < 2 ^ (e + spec.mantissaBits - 1)) : m = 2 ^ (spec.mantissaBits - 1) := by
  have hfull := full_or_least hc
  have hbits := two_le_mantissaBits spec
  have hexp : (2 : ℚ) ^ (e + spec.mantissaBits - 1) = 2 ^ (spec.mantissaBits - 1) * 2 ^ e := by
    rw [← zpow_natCast, ← zpow_add₀ two_ne_zero]
    congr 1
    omega
  rw [hexp, ← div_lt_iff₀ (by positivity)] at hbelow
  have hge : 2 ^ (spec.mantissaBits - 1) ≤ m := by
    rw [← Nat.le_log2 hm.ne']
    omega
  have hlow := (scaled_of_holds h).1
  by_contra hne
  have : (2 ^ (spec.mantissaBits - 1) + 1 : ℚ) ≤ m := by
    exact_mod_cast (by omega : 2 ^ (spec.mantissaBits - 1) + 1 ≤ m)
  split at hlow <;> linarith

/-- Below the binade of the target the unit is half as large, and the target is an even one. -/
theorem rounds_of_below (hc : Canonical spec (.finite sign m e hm))
    (h : (targetIn spec m e).Holds z) (he : e ≠ spec.minExponent)
    (hbelow : z < 2 ^ (e + spec.mantissaBits - 1)) :
    Rounds spec (factor sign * z) (.finite sign m e hm) := by
  have hfull := full_or_least hc
  have hbits := two_le_mantissaBits spec
  have hpos : (0 : ℚ) < 2 ^ e := by positivity
  have hz : |z| = z := abs_of_pos ((low_pos spec hm e).trans_le h.1)
  have hpower := eq_power_of_below hc h he hbelow
  have hm' : (m : ℚ) = 2 ^ (spec.mantissaBits - 1) := by exact_mod_cast hpower
  have hone : (1 : ℚ) ≤ m := by exact_mod_cast hm
  have hhalf : (2 : ℚ) ^ e = 2 * 2 ^ (e - 1) := by
    rw [zpow_sub_one₀ two_ne_zero]
    ring
  have hscaled : z / 2 ^ (e - 1) = 2 * (z / 2 ^ e) := by
    rw [hhalf]
    field_simp
  have hexp : (2 : ℚ) ^ (e + spec.mantissaBits - 1) = m * 2 ^ e := by
    rw [hm', ← zpow_natCast, ← zpow_add₀ two_ne_zero]
    congr 1
    omega
  have hexp' : (2 : ℚ) ^ (e - 1 + spec.mantissaBits - 1) = m / 2 * 2 ^ e := by
    rw [sub_add_eq_add_sub, zpow_sub_one₀ two_ne_zero, hexp]
    ring
  obtain ⟨hlow, -, -⟩ := scaled_of_holds h
  rw [if_pos ((closeBelow_iff _ _ _).mpr ⟨hpower, by omega⟩)] at hlow
  have hbelow' : z / 2 ^ e < m := by rwa [div_lt_iff₀ hpos, ← hexp]
  refine rounds_of_nearest (n := 2 * m) (t := e - 1) hc ?_ ⟨by omega, ?_, Or.inr ?_⟩ ?_ ?_
  · rw [hhalf]
    push_cast
    ring
  · rw [hz, sub_add_eq_add_sub]
    exact hbelow
  · rw [hexp', hz, ← le_div_iff₀ hpos]
    linarith
  · rw [hscaled, abs_le]
    push_cast
    constructor <;> linarith
  · exact fun _ => even_two_mul m

/-- The interval of a target is what rounds to it. -/
theorem rounds_of_holds (hc : Canonical spec (.finite sign m e hm))
    (h : (targetIn spec m e).Holds z) : Rounds spec (factor sign * z) (.finite sign m e hm) := by
  by_cases hsame : e = spec.minExponent ∨ 2 ^ (e + spec.mantissaBits - 1) ≤ z
  · exact rounds_of_same hc h hsame
  · rw [not_or, not_le] at hsame
    exact rounds_of_below hc h hsame.1 hsame.2

theorem high_lt (hc : Canonical spec (.finite sign m e hm)) :
    (targetIn spec m e).high < 2 ^ (e + spec.mantissaBits) := by
  have hlt : (m + 1 : ℚ) ≤ 2 ^ spec.mantissaBits := by exact_mod_cast lt_two_pow hc
  have hhalf : (m + 1 / 2 : ℚ) < 2 ^ spec.mantissaBits := by linarith
  rw [high_eq, add_comm e, zpow_add₀ two_ne_zero, zpow_natCast]
  exact mul_lt_mul_of_pos_right hhalf (by positivity)

/-- The ends of an interval are whole numbers of its target's finest units in binary64. -/
theorem ends_eq (spec : Format) (m : ℕ) (e : ℤ) : ∃ a b : ℤ,
    (targetIn spec m e).low = a * 2 ^ (e - 29) ∧ (targetIn spec m e).high = b * 2 ^ (e - 29) := by
  have hunit : (2 : ℚ) ^ (e - 2) = 2 ^ 27 * 2 ^ (e - 29) := by
    rw [← zpow_natCast, ← zpow_add₀ two_ne_zero]
    congr 1
    push_cast
    ring
  refine ⟨(4 * m - if (targetIn spec m e).closeBelow then 1 else 2) * 2 ^ 27,
    (4 * m + 2) * 2 ^ 27, ?_, ?_⟩
  · change (4 * (m : ℚ) - _) * 2 ^ (e - 2) = _
    rw [hunit]
    push_cast
    ring
  · change (4 * (m : ℚ) + 2) * 2 ^ (e - 2) = _
    rw [hunit]
    push_cast
    ring

/-- Rounding to binary64 first changes nothing if no odd number is next to an end. -/
theorem holds_of_rounds {r : UnpackedFloat} (hc : Canonical .binary32 (.finite sign m e hm))
    (h : (targetIn .binary32 m e).Holds z)
    (hclear : m % 2 = 1 → (targetIn .binary32 m e).low + 2 ^ (e - 30) < z ∧
      z + 2 ^ (e - 30) < (targetIn .binary32 m e).high)
    (hr : Rounds .binary64 z r) : (targetIn .binary32 m e).Holds (Binary.value r) := by
  have hmin : (-149 : ℤ) ≤ e := (full_or_least hc).1
  have hj : Format.binary64.minExponent ≤ e - 29 := by
    change (-1074 : ℤ) ≤ _
    omega
  have hz : |z| < 2 ^ (e - 29 + Format.binary64.mantissaBits) := by
    rw [abs_of_pos ((low_pos .binary32 hm e).trans_le h.1)]
    refine (h.2.1.trans_lt (high_lt hc)).trans_eq ?_
    congr 1
    change e + 24 = e - 29 + 53
    omega
  obtain ⟨a, b, ha, hb⟩ := ends_eq .binary32 m e
  have hlow : (targetIn .binary32 m e).low ≤ Binary.value r := by
    have hle := h.1
    rw [ha] at hle ⊢
    exact hr.le_of_ge hj hz hle
  have hhigh : Binary.value r ≤ (targetIn .binary32 m e).high := by
    have hle := h.2.1
    rw [hb] at hle ⊢
    exact hr.le_of_le hj hz hle
  refine ⟨hlow, hhigh, fun hodd => ?_⟩
  obtain ⟨habove, hbelow⟩ := hclear hodd
  have hnear := hr.near_unit hj hz
  rw [show e - 29 - 1 = e - 30 by ring, abs_le] at hnear
  constructor <;> linarith

/-- A whole number is read exactly, with zeros below it, and rounded. -/
theorem roundWithAccuracy_decimal (spec : Format) (d : Decimal) (hd : 0 < d.significand)
    (hexp : 0 ≤ d.exponent) : Rounds spec d.value (roundWithAccuracy spec (.positive * .positive)
      ((d.significand <<< spec.mantissaBits) * 10 ^ d.exponent.toNat)
      (-(spec.mantissaBits : ℤ) + 0) .exact) := by
  have hten : (10 : ℚ) ^ d.exponent = (10 ^ d.exponent.toNat : ℕ) := by
    push_cast
    rw [← zpow_natCast, Int.toNat_of_nonneg hexp]
  have hval : d.value = factor (.positive * .positive) *
      (((d.significand <<< spec.mantissaBits) * 10 ^ d.exponent.toNat : ℕ) *
        2 ^ (-(spec.mantissaBits : ℤ) + 0)) := by
    have hcancel : (2 : ℚ) ^ spec.mantissaBits * 2 ^ (-(spec.mantissaBits : ℤ) + 0) = 1 := by
      rw [← zpow_natCast, ← zpow_add₀ two_ne_zero]
      simp
    rw [Decimal.value, hten, Nat.shiftLeft_eq, factor_mul, factor]
    push_cast
    linear_combination (-(d.significand : ℚ) * 10 ^ d.exponent.toNat) * hcancel
  rw [hval]
  refine roundWithAccuracy_rounds _ (residue_of_exact _ _) (by positivity) ?_
  have hbits := two_le_mantissaBits spec
  have hlog : spec.mantissaBits ≤
      ((d.significand <<< spec.mantissaBits) * 10 ^ d.exponent.toNat).log2 := by
    rw [Nat.shiftLeft_eq, Nat.le_log2 (by positivity)]
    exact (Nat.le_mul_of_pos_left _ hd).trans
      (Nat.le_mul_of_pos_right _ (Nat.pow_pos (by decide)))
  rw [targetExponent_def]
  omega

/-- A decimal whose exponent is not absurd is read as its exact value, rounded. -/
theorem ofScientific_rounds (spec : Format) (d : Decimal) (hd : 0 < d.significand)
    (hhigh : d.exponent ≤ 2 ^ spec.exponentBits) (hlow : -2 ^ spec.exponentBits ≤ d.exponent) :
    Rounds spec d.value (ofScientific spec d.significand d.exponent) := by
  rw [ofScientific, dif_neg hd.ne', if_neg (by omega), if_neg (by omega)]
  split
  · next hexp => exact roundWithAccuracy_decimal spec d hd hexp
  · next hexp =>
    have hten : (10 : ℚ) ^ d.exponent = ((10 ^ (-d.exponent).toNat : ℕ) : ℚ)⁻¹ := by
      push_cast
      rw [← zpow_natCast, ← zpow_neg]
      congr 1
      omega
    have hval : d.value =
        Binary.value (.finite .positive d.significand 0 hd) /
          Binary.value (.finite .positive (10 ^ (-d.exponent).toNat) 0
            (Nat.pow_pos (by decide))) := by
      rw [Decimal.value, hten, Binary.value, Binary.value, factor]
      simp [div_eq_mul_inv]
    rw [hval]
    refine div_rounds rfl rfl ?_
    rw [Binary.value, factor]
    positivity

/-- Storing what is rounded from a number near a target changes nothing. -/
theorem settle_of_holds {r : UnpackedFloat} (hf : Fits .binary32 (.finite sign m e hm))
    (hr : Rounds .binary64 z r) (h : (targetIn .binary32 m e).Holds (Binary.value r)) :
    settle r = r := by
  refine store_of_isFinite hr.canonical (isFinite_store hr.canonical (by decide) hr.isFinite ?_)
  have hmax : e ≤ 127 - 23 := hf.bounded _ _ _ _ rfl
  rw [abs_of_pos ((low_pos .binary32 hm e).trans_le h.1)]
  calc Binary.value r ≤ (targetIn .binary32 m e).high := h.2.1
    _ < 2 ^ (e + Format.binary32.mantissaBits) := high_lt hf.canonical
    _ ≤ 2 ^ ((Format.binary64.exponentBias + 1 : ℕ) : ℤ) := by
        refine zpow_le_zpow_right₀ one_le_two ?_
        change e + 24 ≤ 1024
        omega
    _ = 2 ^ (Format.binary64.exponentBias + 1) := zpow_natCast _ _

def isNegative : Sign → Bool
  | .positive => false
  | .negative => true

/-- What rounds to a binary32 number in two steps, through binary64. -/
theorem narrow_of_holds {r : UnpackedFloat} (hc : Canonical .binary32 (.finite sign m e hm))
    (h : (targetIn .binary32 m e).Holds (Binary.value r)) :
    narrow (if isNegative sign then r.neg else r) = toFloat32 (.finite sign m e hm) := by
  have hpos := (low_pos .binary32 hm e).trans_le h.1
  have hne : Binary.value (.finite sign m e hm) ≠ 0 := by
    rw [Binary.value]
    have : factor sign ≠ 0 := by cases sign <;> simp [factor]
    positivity
  cases r with
  | infinity _ => exact absurd hpos (lt_irrefl _)
  | notANumber => exact absurd hpos (lt_irrefl _)
  | zero _ => exact absurd hpos (lt_irrefl _)
  | finite s m' e' hm' =>
    obtain rfl : s = .positive := by
      cases s with
      | positive => rfl
      | negative =>
        rw [Binary.value, factor, neg_one_mul, neg_pos] at hpos
        exact absurd hpos (by positivity : (0 : ℚ) ≤ m' * 2 ^ e').not_gt
    have hnarrow : narrow (if isNegative sign then UnpackedFloat.neg (.finite .positive m' e' hm')
        else .finite .positive m' e' hm') = toFloat32 (.round .binary32 sign m' e') := by
      cases sign <;> rfl
    have hround := round_rounds .binary32 sign hm'.ne' e'
    have hvalue : Binary.value (.finite .positive m' e' hm') = m' * 2 ^ e' := one_mul _
    rw [hvalue] at h
    rw [hnarrow, (rounds_of_holds hc h).unique hround hne]

/-- A literal near a binary32 number is read as this number. -/
theorem narrow_literal {d : Decimal} (hf : Fits .binary32 (.finite sign m e hm))
    (hd : 0 < d.significand) (hhigh : d.exponent ≤ 2048) (hlow : -2048 ≤ d.exponent)
    (h : (targetIn .binary32 m e).Holds d.value)
    (hclear : m % 2 = 1 → (targetIn .binary32 m e).low + 2 ^ (e - 30) < d.value ∧
      d.value + 2 ^ (e - 30) < (targetIn .binary32 m e).high) :
    (Literal.toBinary64 ⟨isNegative sign, d⟩).isFinite = true ∧
      narrow (Literal.toBinary64 ⟨isNegative sign, d⟩) = toFloat32 (.finite sign m e hm) := by
  have hr := ofScientific_rounds .binary64 d hd hhigh hlow
  have hholds := holds_of_rounds hf.canonical h hclear hr
  have hnarrow := narrow_of_holds hf.canonical hholds
  have hfinite := hr.isFinite
  simp only [Literal.toBinary64, settle_of_holds hf hr hholds]
  refine ⟨?_, hnarrow⟩
  generalize ofScientific .binary64 d.significand d.exponent = r at hfinite
  split
  · cases r <;> exact hfinite
  · exact hfinite

end Strapdown.Decimal
