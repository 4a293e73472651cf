import Strapdown.Proofs.Binary.Value

/-! Each operation on unpacked numbers rounds its exact result. -/
namespace Strapdown.Binary
open Float.Model (Format UnpackedFloat totalExponent)
open Float.Model.UnpackedFloat

variable {spec : Format} {sign : Sign} {m m₁ m₂ : ℕ} {e e₁ e₂ t : ℤ}
variable {a b r : UnpackedFloat}

/-- A significand of a format is full unless its exponent is the least one. -/
theorem full_or_least (hc : Canonical spec (.finite sign m e hm)) :
    spec.minExponent ≤ e ∧ (m.log2 + 1 = spec.mantissaBits ∨
      e = spec.minExponent ∧ m.log2 + 1 ≤ spec.mantissaBits) := by
  have hdef : e = _ := hc
  rw [targetExponent_def] at hdef
  omega

theorem ulp_of_canonical (hc : Canonical spec (.finite sign m e hm)) :
    Ulp spec (value (.finite sign m e hm)) e := by
  have hfull := full_or_least hc
  have habs : |value (.finite sign m e hm)| = m * 2 ^ e := by
    rw [value, abs_mul, abs_factor, one_mul, abs_of_nonneg (by positivity)]
  have hlt : (m : ℚ) < 2 ^ spec.mantissaBits := by
    have : m < 2 ^ spec.mantissaBits :=
      Nat.lt_log2_self.trans_le (Nat.pow_le_pow_right two_pos (by omega))
    exact_mod_cast this
  rw [Ulp, habs]
  refine ⟨hfull.1, ?_, ?_⟩
  · rw [add_comm e, zpow_add₀ two_ne_zero, zpow_natCast]
    exact mul_lt_mul_of_pos_right hlt (by positivity)
  · rcases hfull.2 with hlog | ⟨he, -⟩
    · refine Or.inr ?_
      have hle : (2 : ℚ) ^ m.log2 ≤ m := by exact_mod_cast Nat.log2_self_le hm.ne'
      have hexp : e + spec.mantissaBits - 1 = (m.log2 : ℤ) + e := by omega
      rw [hexp, zpow_add₀ two_ne_zero, zpow_natCast]
      exact mul_le_mul_of_nonneg_right hle (by positivity)
    · exact Or.inl he

theorem ulp_zero : Ulp spec (0 : ℚ) spec.minExponent := by
  refine ⟨le_rfl, ?_, Or.inl rfl⟩
  rw [abs_zero]
  positivity

theorem rounds_of_value {x : ℚ} (hc : Canonical spec r) (hf : r.isFinite = true)
    (hv : value r = x) : Rounds spec x r := by
  subst hv
  refine ⟨hc, hf, ?_⟩
  cases r with
  | infinity _ => cases hf
  | notANumber => cases hf
  | zero s => exact ⟨0, _, by simp [value], ulp_zero, by simp [value], by simp [value]⟩
  | finite s m e hm =>
    obtain ⟨u, hu, -⟩ := cast_factor s
    have hexact : ((u * m : ℤ) : ℚ) - value (.finite s m e hm) / 2 ^ e = 0 := by
      rw [value, hu, ← mul_assoc, mul_div_cancel_right₀ _ (by positivity)]
      push_cast
      ring
    refine ⟨u * m, e, ?_, ulp_of_canonical hc, ?_, ?_⟩
    · rw [value, hu]
      push_cast
      ring
    · rw [hexact]
      norm_num
    · rw [hexact]
      norm_num

theorem log2_mul_two_pow (hm : m ≠ 0) (k : ℕ) : (m * 2 ^ k).log2 = m.log2 + k := by
  rw [Nat.log2_eq_iff (by positivity)]
  have hlo := Nat.log2_self_le hm
  have hhi := Nat.lt_log2_self (n := m)
  constructor
  · rw [pow_add]
    exact Nat.mul_le_mul_right _ hlo
  · rw [show m.log2 + k + 1 = m.log2 + 1 + k by ring, pow_add]
    exact Nat.mul_lt_mul_of_pos_right hhi (Nat.two_pow_pos k)

theorem decreaseExponent_value (m : ℕ) (e t : ℤ) :
    ((decreaseExponent m e t).1 : ℚ) * 2 ^ (decreaseExponent m e t).2 = m * 2 ^ e := by
  simp only [decreaseExponent, Nat.shiftLeft_eq]
  push_cast
  rw [mul_assoc, ← zpow_natCast, ← zpow_add₀ two_ne_zero]
  congr 2
  ring

theorem residue_of_exact (m : ℕ) (e : ℤ) :
    Residue (.ofMantissaAndAccuracy m .exact) ((m * 2 ^ e : ℚ) / 2 ^ e) := by
  rw [mul_div_cancel_right₀ _ (by positivity)]
  exact residue_exact m

theorem round_rounds (spec : Format) (sign : Sign) (hm : m ≠ 0) (e : ℤ) :
    Rounds spec (factor sign * (m * 2 ^ e)) (UnpackedFloat.round spec sign m e) := by
  unfold UnpackedFloat.round
  generalize ht : spec.targetExponent (totalExponent m e) = t
  rw [← decreaseExponent_value m e t]
  rw [targetExponent_def] at ht
  refine roundWithAccuracy_rounds sign (residue_of_exact _ _) (by positivity) ?_
  rw [targetExponent_def]
  rw [Nat.shiftLeft_eq, log2_mul_two_pow hm]
  omega

theorem normalize_rounds (mant e : ℤ) (zeroSign : Sign) :
    Rounds spec (mant * 2 ^ e : ℚ) (UnpackedFloat.normalize spec mant e zeroSign) := by
  unfold UnpackedFloat.normalize
  cases hc : compare mant 0 with
  | lt =>
    have hlt : mant < 0 := Int.compare_eq_lt.mp hc
    have hz : ((-mant).toNat : ℚ) = -mant := by
      exact_mod_cast Int.toNat_of_nonneg (show 0 ≤ -mant by omega)
    convert round_rounds spec .negative (show (-mant).toNat ≠ 0 by omega) e using 1
    rw [hz, factor]
    ring
  | eq =>
    have heq : mant = 0 := Int.compare_eq_eq.mp hc
    exact rounds_of_value trivial rfl (by simp [heq, value])
  | gt =>
    have hgt : 0 < mant := Int.compare_eq_gt.mp hc
    have hz : (mant.toNat : ℚ) = mant := by
      exact_mod_cast Int.toNat_of_nonneg (show 0 ≤ mant by omega)
    convert round_rounds spec .positive (show mant.toNat ≠ 0 by omega) e using 1
    rw [hz, factor]
    ring

theorem value_add (s₁ s₂ : Sign) (m₁ m₂ : ℕ) (e₁ e₂ : ℤ) :
    (((s₁.apply (decreaseExponent m₁ e₁ (min e₁ e₂)).1 +
        s₂.apply (decreaseExponent m₂ e₂ (min e₁ e₂)).1 : ℤ) : ℚ)) * 2 ^ min e₁ e₂ =
      factor s₁ * (m₁ * 2 ^ e₁) + factor s₂ * (m₂ * 2 ^ e₂) := by
  have h₁ : (decreaseExponent m₁ e₁ (min e₁ e₂)).2 = min e₁ e₂ := by
    simp only [decreaseExponent]
    omega
  have h₂ : (decreaseExponent m₂ e₂ (min e₁ e₂)).2 = min e₁ e₂ := by
    simp only [decreaseExponent]
    omega
  rw [Int.cast_add, cast_apply, cast_apply, add_mul, mul_assoc, mul_assoc]
  nth_rewrite 2 [← h₁]
  nth_rewrite 4 [← h₂]
  rw [decreaseExponent_value, decreaseExponent_value]

theorem add_rounds (ha : Canonical spec a) (hb : Canonical spec b) (haf : a.isFinite = true)
    (hbf : b.isFinite = true) : Rounds spec (value a + value b) (a.add spec b) := by
  cases a with
  | infinity _ => cases haf
  | notANumber => cases haf
  | zero s₁ =>
    cases b with
    | infinity _ => cases hbf
    | notANumber => cases hbf
    | zero s₂ =>
      simp only [UnpackedFloat.add]
      split <;> exact rounds_of_value trivial rfl (by simp [value])
    | finite s₂ m₂ e₂ h₂ => exact rounds_of_value hb rfl (by simp [value, UnpackedFloat.add])
  | finite s₁ m₁ e₁ h₁ =>
    cases b with
    | infinity _ => cases hbf
    | notANumber => cases hbf
    | zero s₂ => exact rounds_of_value ha rfl (by simp [value, UnpackedFloat.add])
    | finite s₂ m₂ e₂ h₂ =>
      simp only [value]
      rw [← value_add]
      exact normalize_rounds _ _ _

theorem canonical_neg (ha : Canonical spec a) : Canonical spec a.neg := by
  cases a <;> exact ha

theorem value_neg (a : UnpackedFloat) : value a.neg = -value a := by
  cases a with
  | finite sign m e hm =>
    simp only [UnpackedFloat.neg, value, factor_neg]
    ring
  | _ => simp [UnpackedFloat.neg, value]

theorem isFinite_unpacked_neg (a : UnpackedFloat) : a.neg.isFinite = a.isFinite := by
  cases a <;> rfl

/-- Subtracting is adding what is negated, whatever the operands are. -/
theorem sub_eq_add (a b : UnpackedFloat) : a.sub spec b = a.add spec b.neg := by
  cases a with
  | finite s₁ m₁ e₁ h₁ =>
    cases b with
    | finite s₂ m₂ e₂ h₂ =>
      have hneg (k l : ℤ) : s₁.apply k - s₂.apply l = s₁.apply k + (-s₂).apply l := by
        cases s₂
        · exact (neg_neg l ▸ sub_eq_add_neg _ (-l) : _ - -l = _ + l)
        · exact sub_eq_add_neg _ l
      simp only [UnpackedFloat.sub, UnpackedFloat.neg, UnpackedFloat.add, hneg]
    | _ => rfl
  | _ => cases b <;> rfl

theorem sub_rounds (ha : Canonical spec a) (hb : Canonical spec b) (haf : a.isFinite = true)
    (hbf : b.isFinite = true) : Rounds spec (value a - value b) (a.sub spec b) := by
  rw [sub_eq_add, sub_eq_add_neg, ← value_neg]
  exact add_rounds ha (canonical_neg hb) haf ((isFinite_unpacked_neg b).trans hbf)

theorem log2_le_log2_mul (h₁ : 0 < m₁) (h₂ : 0 < m₂) : m₁.log2 ≤ (m₁ * m₂).log2 := by
  rw [Nat.le_log2 (by positivity)]
  exact (Nat.log2_self_le h₁.ne').trans (Nat.le_mul_of_pos_right m₁ h₂)

theorem mul_rounds (hs : 2 ≤ spec.exponentBits) (ha : Canonical spec a) (hb : Canonical spec b)
    (haf : a.isFinite = true) (hbf : b.isFinite = true) :
    Rounds spec (value a * value b) (a.mul spec b) := by
  cases a with
  | infinity _ => cases haf
  | notANumber => cases haf
  | zero s₁ =>
    cases b with
    | infinity _ => cases hbf
    | notANumber => cases hbf
    | zero s₂ => exact rounds_of_value trivial rfl (by simp [value, UnpackedFloat.mul])
    | finite s₂ m₂ e₂ h₂ => exact rounds_of_value trivial rfl (by simp [value, UnpackedFloat.mul])
  | finite s₁ m₁ e₁ h₁ =>
    cases b with
    | infinity _ => cases hbf
    | notANumber => cases hbf
    | zero s₂ => exact rounds_of_value trivial rfl (by simp [value, UnpackedFloat.mul])
    | finite s₂ m₂ e₂ h₂ =>
      have hprod : value (.finite s₁ m₁ e₁ h₁) * value (.finite s₂ m₂ e₂ h₂) =
          factor (s₁ * s₂) * ((m₁ * m₂ : ℕ) * 2 ^ (e₁ + e₂) : ℚ) := by
        simp only [value, factor_mul, zpow_add₀ (two_ne_zero (α := ℚ))]
        push_cast
        ring
      rw [hprod]
      refine roundWithAccuracy_rounds _ (residue_of_exact _ _) (by positivity) ?_
      have hl₁ := log2_le_log2_mul h₁ h₂
      have hl₂ := log2_le_log2_mul h₂ h₁
      rw [mul_comm m₂] at hl₂
      have hbias := one_le_exponentBias hs
      have hmin := minExponent_eq spec
      have hbits : spec.mantissaBits = 1 + spec.mantissaBitsWithoutImplicit := rfl
      have hc₁ := full_or_least ha
      have hc₂ := full_or_least hb
      rw [targetExponent_def]
      omega

theorem residue_fraction {d : ℕ} (m : ℕ) (hd : 0 < d) :
    Residue (.ofMantissaAndAccuracy (m / d) (accuracyOfFraction (m % d) d)) (m / d : ℚ) := by
  have hd' : (0 : ℚ) < d := by exact_mod_cast hd
  have hsplit : (m : ℚ) / d = (m / d : ℕ) + (m % d : ℕ) / d := by
    have h : (m : ℚ) = d * (m / d : ℕ) + (m % d : ℕ) := by
      exact_mod_cast (Nat.div_add_mod m d).symm
    field_simp
    linarith
  rw [hsplit]
  unfold accuracyOfFraction
  split
  · next h =>
    rw [h, Nat.cast_zero, zero_div, add_zero]
    exact residue_exact _
  · next h =>
    have hr : (0 : ℚ) < (m % d : ℕ) := by exact_mod_cast Nat.pos_of_ne_zero h
    have hfrac : (0 : ℚ) < (m % d : ℕ) / d := div_pos hr hd'
    cases hc : compare (2 * (m % d)) d with
    | lt =>
      have hlt : (2 : ℚ) * (m % d : ℕ) < d := by exact_mod_cast Nat.compare_eq_lt.mp hc
      refine residue_lt _ hfrac ?_
      rw [div_lt_div_iff₀ hd' two_pos]
      linarith
    | eq =>
      have heq : (2 : ℚ) * (m % d : ℕ) = d := by exact_mod_cast Nat.compare_eq_eq.mp hc
      have hhalf : ((m % d : ℕ) : ℚ) / d = 1 / 2 := by
        rw [div_eq_div_iff hd'.ne' two_ne_zero]
        linarith
      rw [hhalf]
      exact residue_eq _
    | gt =>
      have hgt : (d : ℚ) < 2 * (m % d : ℕ) := by exact_mod_cast Nat.compare_eq_gt.mp hc
      refine residue_gt _ ?_ ?_
      · rw [div_lt_div_iff₀ two_pos hd']
        linarith
      · rw [div_lt_one hd']
        exact_mod_cast Nat.mod_lt m hd

/-- Enough zeros behind a numerator make its quotient as long as they are many. -/
theorem le_log2_div {k : ℕ} (h₁ : 0 < m₁) (h₂ : 0 < m₂) (hpos : m₂.log2 < m₁.log2 + k) :
    m₁.log2 + k - m₂.log2 - 1 ≤ (m₁ * 2 ^ k / m₂).log2 := by
  have hle : 2 ^ (m₁.log2 + k - m₂.log2 - 1) ≤ m₁ * 2 ^ k / m₂ := by
    rw [Nat.le_div_iff_mul_le h₂]
    calc 2 ^ (m₁.log2 + k - m₂.log2 - 1) * m₂
        ≤ 2 ^ (m₁.log2 + k - m₂.log2 - 1) * 2 ^ (m₂.log2 + 1) :=
          Nat.mul_le_mul_left _ Nat.lt_log2_self.le
      _ = 2 ^ m₁.log2 * 2 ^ k := by
          rw [← pow_add, ← pow_add]
          congr 1
          omega
      _ ≤ m₁ * 2 ^ k := Nat.mul_le_mul_right _ (Nat.log2_self_le h₁.ne')
  have hne : m₁ * 2 ^ k / m₂ ≠ 0 := by
    have := Nat.two_pow_pos (m₁.log2 + k - m₂.log2 - 1)
    omega
  exact (Nat.le_log2 hne).mpr hle

theorem value_div (s₁ s₂ : Sign) {k : ℕ} {h₁ : 0 < m₁} {h₂ : 0 < m₂} (hk : k + t = e₁ - e₂) :
    value (.finite s₁ m₁ e₁ h₁) / value (.finite s₂ m₂ e₂ h₂) =
      factor (s₁ / s₂) * ((m₁ * 2 ^ k : ℕ) / m₂ * 2 ^ t : ℚ) := by
  have he : (2 : ℚ) ^ e₁ / 2 ^ e₂ = 2 ^ k * 2 ^ t := by
    rw [← zpow_sub₀ two_ne_zero, ← zpow_natCast, ← zpow_add₀ two_ne_zero, hk]
  have hf : factor s₁ / factor s₂ = factor (s₁ / s₂) := by
    rw [factor_div]
    cases s₂ <;> simp [factor, div_neg]
  calc value (.finite s₁ m₁ e₁ h₁) / value (.finite s₂ m₂ e₂ h₂)
      = factor s₁ / factor s₂ * (m₁ / m₂ * (2 ^ e₁ / 2 ^ e₂)) := by
        simp only [value]
        rw [mul_div_mul_comm, mul_div_mul_comm]
    _ = factor (s₁ / s₂) * ((m₁ * 2 ^ k : ℕ) / m₂ * 2 ^ t : ℚ) := by
        rw [he, hf]
        push_cast
        ring

theorem div_rounds (haf : a.isFinite = true) (hbf : b.isFinite = true) (hb : value b ≠ 0) :
    Rounds spec (value a / value b) (a.div spec b) := by
  cases b with
  | infinity _ => cases hbf
  | notANumber => cases hbf
  | zero _ => exact absurd rfl hb
  | finite s₂ m₂ e₂ h₂ =>
    cases a with
    | infinity _ => cases haf
    | notANumber => cases haf
    | zero s₁ => exact rounds_of_value trivial rfl (by simp [value, UnpackedFloat.div])
    | finite s₁ m₁ e₁ h₁ =>
      simp only [UnpackedFloat.div, divCore, Nat.shiftLeft_eq]
      generalize hT : min (e₁ - e₂)
        (spec.targetExponent (totalExponent m₁ e₁ - totalExponent m₂ e₂)) = T
      generalize hk : (e₁ - e₂ - T).toNat = k
      rw [value_div s₁ s₂ (by omega : (k : ℤ) + T = e₁ - e₂)]
      refine roundWithAccuracy_rounds _ ?_ (by positivity) ?_
      · rw [mul_div_cancel_right₀ _ (by positivity)]
        exact residue_fraction _ h₂
      · have hlog : m₂.log2 < m₁.log2 + k → _ := le_log2_div h₁ h₂
        have hbits := two_le_mantissaBits spec
        have htot : spec.targetExponent (totalExponent m₁ e₁ - totalExponent m₂ e₂) =
            max (m₁.log2 + 1 + e₁ - (m₂.log2 + 1 + e₂) - spec.mantissaBits) spec.minExponent := rfl
        rw [targetExponent_def]
        omega

theorem residue_sqrt (m : ℕ) :
    Residue (.ofMantissaAndAccuracy m.sqrt (if m - m.sqrt * m.sqrt = 0 then .exact
      else .inexact (if m - m.sqrt * m.sqrt ≤ m.sqrt then .lt else .gt))) (√m : ℝ) := by
  have hle := Nat.sqrt_le m
  have hlt := Nat.lt_succ_sqrt m
  generalize hr : m.sqrt = r at hle hlt
  have hnn : (0 : ℝ) ≤ r := Nat.cast_nonneg r
  have hlt' : √(m : ℝ) < r + 1 := by
    rw [Real.sqrt_lt' (by positivity)]
    have : (m : ℝ) < (r + 1) * (r + 1) := by exact_mod_cast hlt
    linarith [sq ((r : ℝ) + 1)]
  split
  · next h =>
    have heq : (m : ℝ) = r * r := by
      have : m = r * r := by omega
      exact_mod_cast this
    rw [heq, Real.sqrt_mul_self hnn]
    exact residue_exact r
  · next h =>
    have hgt : (r : ℝ) < √m := by
      rw [Real.lt_sqrt hnn]
      have : r * r < m := by omega
      have : (r : ℝ) * r < m := by exact_mod_cast this
      linarith [sq (r : ℝ)]
    rw [show √(m : ℝ) = r + (√m - r) by ring]
    split
    · next hlow =>
      refine residue_lt _ (by linarith) ?_
      have hm : (m : ℝ) ≤ r * r + r := by
        have : m ≤ r * r + r := by omega
        exact_mod_cast this
      have : √(m : ℝ) < r + 1 / 2 := by
        rw [Real.sqrt_lt' (by positivity)]
        linarith [show ((r : ℝ) + 1 / 2) ^ 2 = r * r + r + 1 / 4 by ring]
      linarith
    · next hhigh =>
      refine residue_gt _ ?_ (by linarith)
      have hm : (r : ℝ) * r + r + 1 ≤ m := by
        have : r * r + r + 1 ≤ m := by omega
        exact_mod_cast this
      have : (r : ℝ) + 1 / 2 < √m := by
        rw [Real.lt_sqrt (by positivity)]
        linarith [show ((r : ℝ) + 1 / 2) ^ 2 = r * r + r + 1 / 4 by ring]
      linarith

theorem le_log2_sqrt {j k : ℕ} (hm : 0 < m) (hj : 2 * j ≤ m.log2 + k) :
    j ≤ (m * 2 ^ k).sqrt.log2 := by
  have hle : 2 ^ j ≤ (m * 2 ^ k).sqrt := by
    rw [Nat.le_sqrt, ← pow_add]
    calc 2 ^ (j + j) ≤ 2 ^ (m.log2 + k) := Nat.pow_le_pow_right two_pos (by omega)
      _ = 2 ^ m.log2 * 2 ^ k := pow_add _ _ _
      _ ≤ m * 2 ^ k := Nat.mul_le_mul_right _ (Nat.log2_self_le hm.ne')
  have hne : (m * 2 ^ k).sqrt ≠ 0 := by
    have := Nat.two_pow_pos j
    omega
  exact (Nat.le_log2 hne).mpr hle

theorem sqrt_mul_two_zpow {k : ℕ} (hk : k + 2 * t = e) :
    √((m * 2 ^ e : ℚ) : ℝ) = √((m * 2 ^ k : ℕ) : ℝ) * 2 ^ t := by
  have he : ((m * 2 ^ e : ℚ) : ℝ) = (m * 2 ^ k : ℕ) * (2 ^ t * 2 ^ t) := by
    push_cast
    rw [mul_assoc, ← zpow_natCast, ← zpow_add₀ two_ne_zero, ← zpow_add₀ two_ne_zero]
    congr 2
    omega
  rw [he, Real.sqrt_mul (by positivity), Real.sqrt_mul_self (by positivity)]

theorem sqrt_rounds (hm : 0 < m) :
    Rounds spec (√((m * 2 ^ e : ℚ) : ℝ)) (UnpackedFloat.sqrt spec (.finite .positive m e hm)) := by
  simp only [UnpackedFloat.sqrt, sqrtCore, Nat.shiftLeft_eq]
  generalize hT : min (e.ediv 2) (spec.targetExponent ((totalExponent m e + 1).ediv 2)) = T
  have hediv : 2 * e.ediv 2 ≤ e := Int.mul_ediv_self_le two_ne_zero
  generalize hk : (e - 2 * T).toNat = k
  have hone : √((m * 2 ^ e : ℚ) : ℝ) = factor .positive * (√((m * 2 ^ k : ℕ) : ℝ) * 2 ^ T) := by
    rw [sqrt_mul_two_zpow (by omega : (k : ℤ) + 2 * T = e), factor, Rat.cast_one, one_mul]
  rw [hone]
  refine roundWithAccuracy_rounds _ ?_ (by positivity) ?_
  · rw [mul_div_cancel_right₀ _ (by positivity)]
    exact residue_sqrt _
  · have htot : spec.targetExponent ((totalExponent m e + 1).ediv 2) =
        max ((m.log2 + 1 + e + 1 : ℤ) / 2 - spec.mantissaBits) spec.minExponent := rfl
    have hbits := two_le_mantissaBits spec
    have hj := le_log2_sqrt hm (j := (m.log2 + k) / 2) (k := k) (by omega)
    rw [targetExponent_def]
    change min (e / 2) _ = T at hT
    omega

end Strapdown.Binary
