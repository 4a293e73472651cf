import Strapdown.Proofs.Binary.Packing

/-! The exact values of binary numbers, and how far rounding takes them from what is computed. -/
namespace Strapdown.Binary
open Float.Model (Format UnpackedFloat totalExponent)
open Float.Model.UnpackedFloat

variable {K : Type} [Field K] [LinearOrder K] [IsStrictOrderedRing K]
variable {spec : Format} {sign : Sign} {m n : ℕ} {e t : ℤ} {acc : Accuracy}
variable {r a b : UnpackedFloat}

def factor : Sign → ℚ
  | .positive => 1
  | .negative => -1

/-- The exact value of a number; what is no number counts as zero. -/
def value : UnpackedFloat → ℚ
  | .finite sign m e _ => factor sign * (m * 2 ^ e)
  | _ => 0

def toRat (x : Float32) : ℚ := value (ofFloat32 x)

theorem abs_factor (sign : Sign) : |factor sign| = 1 := by cases sign <;> simp [factor]

theorem factor_mul (s₁ s₂ : Sign) : factor (s₁ * s₂) = factor s₁ * factor s₂ := by
  cases s₁ <;> cases s₂
  · exact (by norm_num : (1 : ℚ) = -1 * -1)
  · exact (by norm_num : (-1 : ℚ) = -1 * 1)
  · exact (by norm_num : (-1 : ℚ) = 1 * -1)
  · exact (by norm_num : (1 : ℚ) = 1 * 1)

theorem factor_div (s₁ s₂ : Sign) : factor (s₁ / s₂) = factor s₁ * factor s₂ := factor_mul s₁ s₂

theorem factor_neg (sign : Sign) : factor (-sign) = -factor sign := by
  cases sign
  · exact (by norm_num : (1 : ℚ) = - -1)
  · rfl

theorem cast_apply (sign : Sign) (m : ℕ) : ((sign.apply m : ℤ) : ℚ) = factor sign * m := by
  cases sign <;> simp [Sign.apply, factor]

theorem value_of_shows (h : Shows spec sign n t r) : value r = factor sign * (n * 2 ^ t) := by
  cases h with
  | zero hn => simp [value, hn]
  | @finite m e hm he hv ht =>
    have hz : (2 : ℚ) ^ e = 2 ^ (e - t).toNat * 2 ^ t := by
      rw [← zpow_natCast, ← zpow_add₀ two_ne_zero]
      congr 1
      omega
    rw [value, ← hv, hz]
    push_cast
    ring

theorem canonical_of_shows (h : Shows spec sign n t r) : Canonical spec r := by
  cases h with
  | zero hn => trivial
  | finite hm he hv ht => exact he

theorem isFinite_of_shows (h : Shows spec sign n t r) : r.isFinite = true := by
  cases h <;> rfl

theorem ulp_targetExponent {x : K} (hx : Residue (.ofMantissaAndAccuracy m acc) (x / 2 ^ e))
    (hx0 : 0 ≤ x) (he : e ≤ spec.targetExponent (totalExponent m e)) :
    Ulp spec x (spec.targetExponent (totalExponent m e)) := by
  have hdef := targetExponent_def spec m e
  have hbits := two_le_mantissaBits spec
  obtain ⟨f, hf, hf', -, hfx⟩ := hx
  rw [mantissa_ofMantissaAndAccuracy] at hfx
  generalize hr : (if (ExtendedMantissa.ofMantissaAndAccuracy m acc).roundBit then 1 / 2 else 0 : K)
    = half at hfx
  have hhalf : 0 ≤ half ∧ half ≤ 1 / 2 := by
    rw [← hr]
    split <;> norm_num
  have hpos : (0 : K) < 2 ^ e := by positivity
  have hlow : (m : K) * 2 ^ e ≤ x := by
    rw [← le_div_iff₀ hpos, hfx]
    linarith
  have hhigh : x < 2 ^ (m.log2 + 1) * 2 ^ e := by
    rw [← div_lt_iff₀ hpos, hfx]
    have : (m + 1 : K) ≤ 2 ^ (m.log2 + 1) := by exact_mod_cast Nat.lt_log2_self
    linarith
  rw [Ulp, abs_of_nonneg hx0]
  refine ⟨le_max_right _ _, ?_, ?_⟩
  · rw [← zpow_natCast, ← zpow_add₀ two_ne_zero] at hhigh
    exact hhigh.trans_le (zpow_le_zpow_right₀ one_le_two (by push_cast; omega))
  · by_cases ht : spec.targetExponent (totalExponent m e) = spec.minExponent
    · exact Or.inl ht
    · have hm : m ≠ 0 := by
        rintro rfl
        simp only [Nat.log2_zero] at hdef
        omega
      have hlog : (2 : K) ^ m.log2 ≤ m := by exact_mod_cast Nat.log2_self_le hm
      refine Or.inr (le_trans ?_ hlow)
      have hexp : spec.targetExponent (totalExponent m e) + spec.mantissaBits - 1 =
          (m.log2 : ℤ) + e := by omega
      rw [hexp, zpow_add₀ two_ne_zero, zpow_natCast]
      exact mul_le_mul_of_nonneg_right hlog hpos.le

/-- Half a unit in the last place is small beside the number or beside the smallest number. -/
theorem half_unit_le {x : K} (h : Ulp spec x t) :
    (2 : K) ^ t / 2 ≤ max (|x| / 2 ^ spec.mantissaBits) (2 ^ spec.minExponent / 2) := by
  obtain ⟨-, -, ht | hx⟩ := h
  · rw [ht]
    exact le_max_right _ _
  · refine le_max_of_le_left ?_
    rw [le_div_iff₀ (by positivity), ← zpow_natCast, div_mul_eq_mul_div, ← zpow_add₀ two_ne_zero,
      div_eq_mul_inv, ← zpow_sub_one₀ two_ne_zero]
    exact hx

/-- `r` is the number of a format that `x` is rounded to: the nearest multiple of its unit. -/
structure Rounds (spec : Format) (x : K) (r : UnpackedFloat) : Prop where
  canonical : Canonical spec r
  isFinite : r.isFinite = true
  nearest : ∃ (n t : ℤ), value r = n * 2 ^ t ∧ Ulp spec x t ∧ |(n : K) - x / 2 ^ t| ≤ 1 / 2 ∧
    (|(n : K) - x / 2 ^ t| = 1 / 2 → Even n)

theorem Rounds.near {x : K} (h : Rounds spec x r) :
    |(value r : K) - x| ≤ max (|x| / 2 ^ spec.mantissaBits) (2 ^ spec.minExponent / 2) := by
  obtain ⟨n, t, hv, hu, hn, -⟩ := h.nearest
  have hpos : (0 : K) < 2 ^ t := by positivity
  have hscaled := mul_le_mul_of_nonneg_right hn hpos.le
  rw [← abs_of_pos hpos, ← abs_mul, abs_of_pos hpos, sub_mul, div_mul_cancel₀ _ hpos.ne'] at hscaled
  rw [hv]
  push_cast
  exact (hscaled.trans_eq (by ring)).trans (half_unit_le hu)

theorem cast_factor (sign : Sign) : ∃ u : ℤ, factor sign = u ∧ (u = 1 ∨ u = -1) := by
  cases sign
  · exact ⟨-1, by simp [factor], Or.inr rfl⟩
  · exact ⟨1, by simp [factor], Or.inl rfl⟩

theorem roundWithAccuracy_rounds {x : K} (sign : Sign)
    (hx : Residue (.ofMantissaAndAccuracy m acc) (x / 2 ^ e)) (hx0 : 0 ≤ x)
    (he : e ≤ spec.targetExponent (totalExponent m e)) :
    Rounds spec (factor sign * x) (roundWithAccuracy spec sign m e acc) := by
  obtain ⟨n, hn, hs⟩ := roundWithAccuracy_shows sign hx he
  have hu := ulp_targetExponent hx hx0 he
  obtain ⟨u, hu', hone⟩ := cast_factor sign
  have habs : |(u : K)| = 1 := by rcases hone with rfl | rfl <;> simp
  refine ⟨canonical_of_shows hs, isFinite_of_shows hs, u * n,
    spec.targetExponent (totalExponent m e), ?_, ?_, ?_⟩
  · rw [value_of_shows hs, hu']
    push_cast
    ring
  · rw [hu', Ulp, Rat.cast_intCast, abs_mul, habs, one_mul]
    exact hu
  · have hdist : |((u * n : ℤ) : K) - factor sign * x / 2 ^ spec.targetExponent (totalExponent m e)| =
        |(n : K) - x / 2 ^ spec.targetExponent (totalExponent m e)| := by
      rw [hu', Rat.cast_intCast]
      push_cast
      rw [mul_div_assoc, ← mul_sub, abs_mul, habs, one_mul]
    rw [hdist]
    refine ⟨hn.1, fun hh => ?_⟩
    have heven : Even (n : ℤ) := by exact_mod_cast hn.2 hh
    exact heven.mul_left u

end Strapdown.Binary
