import Strapdown.Proofs.Decimal.Digits

/-! The shortest decimal lies where everything rounds to its target. -/
namespace Strapdown.Decimal

variable {t : Target} {d : Decimal} {n : ℕ} {a b : ℕ} {p q : ℤ} {tie : Tie}

theorem power_div (base : ℕ) (hb : base ≠ 0) (p : ℤ) :
    (base : ℚ) ^ p * power base (-p) = power base p := by
  have hb' : (base : ℚ) ≠ 0 := by exact_mod_cast hb
  simp only [power, Nat.pow_eq]
  push_cast
  rw [← zpow_natCast, ← zpow_natCast, ← zpow_add₀ hb']
  congr 1
  omega

theorem power_pos {base : ℕ} (hb : 0 < base) (p : ℤ) : 0 < power base p := Nat.pow_pos hb

/-- Comparing exact products is comparing the numbers. -/
theorem compareBinary_eq (a : ℕ) (p : ℤ) (b : ℕ) (q : ℤ) :
    compareBinary a p b q = compare ((a : ℚ) * 10 ^ p) (b * 2 ^ q) := by
  have h₁ := power_div 10 (by decide) p
  have h₂ := power_div 2 (by decide) q
  have hpos : (0 : ℚ) < power 2 (-q) * power 10 (-p) := by
    exact_mod_cast Nat.mul_pos (power_pos two_pos _) (power_pos (by decide) _)
  push_cast at h₁ h₂
  have hleft : ((a * power 10 p * power 2 (-q) : ℕ) : ℚ) =
      a * 10 ^ p * (power 2 (-q) * power 10 (-p)) := by
    push_cast
    rw [← h₁]
    ring
  have hright : ((b * power 2 q * power 10 (-p) : ℕ) : ℚ) =
      b * 2 ^ q * (power 2 (-q) * power 10 (-p)) := by
    push_cast
    rw [← h₂]
    ring
  rw [compareBinary]
  rcases lt_trichotomy ((a : ℚ) * 10 ^ p) (b * 2 ^ q) with h | h | h
  · rw [compare_lt_iff_lt.mpr h, Nat.compare_eq_lt, ← Nat.cast_lt (α := ℚ), hleft, hright]
    exact mul_lt_mul_of_pos_right h hpos
  · rw [compare_eq_iff_eq.mpr h, Nat.compare_eq_eq, ← Nat.cast_inj (R := ℚ), hleft, hright, h]
  · rw [compare_gt_iff_gt.mpr h, Nat.compare_eq_gt, ← Nat.cast_lt (α := ℚ), hleft, hright]
    exact mul_lt_mul_of_pos_right h hpos

theorem digitCount_spec (hn : 0 < n) :
    0 < digitCount n ∧ 10 ^ (digitCount n - 1) ≤ n ∧ n < 10 ^ digitCount n := by
  have hpos : 0 < digitCount n := Nat.length_toDigits_pos
  refine ⟨hpos, ?_, (Nat.length_toDigits_le_iff (by decide) hpos).mp le_rfl⟩
  by_cases hone : digitCount n = 1
  · rw [hone]
    exact hn
  · by_contra hlt
    have := (Nat.length_toDigits_le_iff (b := 10) (n := n) (by decide)
      (show 0 < digitCount n - 1 by omega)).mpr (by omega)
    change digitCount n ≤ _ at this
    omega

namespace Target

/-- The exact value of the target. -/
def value (t : Target) : ℚ := t.significand * 2 ^ t.exponent

/-- The ends of the interval of what rounds to the target. -/
def low (t : Target) : ℚ :=
  (4 * t.significand - if t.closeBelow then 1 else 2) * 2 ^ (t.exponent - 2)

def high (t : Target) : ℚ := (4 * t.significand + 2) * 2 ^ (t.exponent - 2)

/-- `x` rounds to the target. -/
def Holds (t : Target) (x : ℚ) : Prop :=
  t.low ≤ x ∧ x ≤ t.high ∧ (t.significand % 2 = 1 → t.low < x ∧ x < t.high)

theorem accepts_iff (ht : 0 < t.significand) : t.accepts d = true ↔ t.Holds d.value := by
  have hlow : ((4 * t.significand - if t.closeBelow then 1 else 2 : ℕ) : ℚ) *
      2 ^ (t.exponent - 2) = t.low := by
    rw [low, Nat.cast_sub (by split <;> omega)]
    push_cast
    rfl
  have hhigh : ((4 * t.significand + 2 : ℕ) : ℚ) * 2 ^ (t.exponent - 2) = t.high := by
    push_cast
    rfl
  have hval : (d.significand : ℚ) * 10 ^ d.exponent = d.value := rfl
  simp only [accepts, Holds, compareBinary_eq, hlow, hhigh, hval]
  split
  · next heven =>
    rw [Bool.and_eq_true, Std.LawfulLECmp.isGE_iff_ge, Std.LawfulBCmp.isLE_iff_le]
    simp [heven]
  · next hodd =>
    have hodd' : t.significand % 2 = 1 := by omega
    rw [Bool.and_eq_true, Ordering.isGT_iff_eq_gt, Ordering.isLT_iff_eq_lt, compare_gt_iff_gt,
      compare_lt_iff_lt]
    simp only [hodd', forall_const]
    exact ⟨fun h => ⟨h.1.le, h.2.le, h⟩, fun h => h.2.2⟩

theorem value_mul_power (t : Target) :
    t.value * power 2 (-t.exponent) = (t.significand * power 2 t.exponent : ℕ) := by
  have h := power_div 2 (by decide) t.exponent
  push_cast at h
  rw [value, mul_assoc, h]
  push_cast
  rfl

theorem magnitude_spec (ht : 0 < t.significand) :
    (10 : ℚ) ^ (t.magnitude - 1) ≤ t.value ∧ t.value < 10 ^ t.magnitude := by
  have hden : 0 < power 2 (-t.exponent) := power_pos two_pos _
  have hnum : 0 < t.significand * power 2 t.exponent := Nat.mul_pos ht (power_pos two_pos _)
  have hval := t.value_mul_power
  rw [magnitude]
  generalize power 2 (-t.exponent) = den at *
  generalize t.significand * power 2 t.exponent = num at *
  have hden' : (0 : ℚ) < den := by exact_mod_cast hden
  rw [← mul_le_mul_iff_left₀ hden', ← mul_lt_mul_iff_left₀ hden', hval]
  split
  · next hle =>
    obtain ⟨hk, hlow, hhigh⟩ := digitCount_spec (Nat.div_pos hle hden)
    rw [Nat.le_div_iff_mul_le hden] at hlow
    rw [Nat.div_lt_iff_lt_mul hden] at hhigh
    generalize digitCount (num / den) = k at *
    have hexp : (k : ℤ) - 1 = (k - 1 : ℕ) := by omega
    rw [hexp, zpow_natCast, zpow_natCast]
    exact ⟨by exact_mod_cast hlow, by exact_mod_cast hhigh⟩
  · next hlt =>
    obtain ⟨hk, hlow, hhigh⟩ := digitCount_spec (Nat.div_pos (show num ≤ den - 1 by omega) hnum)
    rw [Nat.le_div_iff_mul_le hnum] at hlow
    rw [Nat.div_lt_iff_lt_mul hnum] at hhigh
    generalize digitCount ((den - 1) / num) = k at *
    have hlow' : (10 : ℚ) ^ (k - 1) * num < den := by
      have : 10 ^ (k - 1) * num < den := by omega
      exact_mod_cast this
    have hhigh' : (den : ℚ) ≤ 10 ^ k * num := by
      have : den ≤ 10 ^ k * num := by omega
      exact_mod_cast this
    have hexp : 1 - (k : ℤ) - 1 = -(k : ℕ) := by omega
    have hexp' : 1 - (k : ℤ) = -(k - 1 : ℕ) := by omega
    rw [hexp, hexp', zpow_neg, zpow_neg, zpow_natCast, zpow_natCast]
    constructor
    · rw [inv_mul_le_iff₀ (by positivity)]
      exact hhigh'
    · rw [lt_inv_mul_iff₀ (by positivity)]
      exact hlow'

theorem floorAt_spec (t : Target) (p : ℤ) :
    t.floorAt p * (10 : ℚ) ^ p ≤ t.value ∧ t.value < (t.floorAt p + 1) * 10 ^ p := by
  have hten := power_div 10 (by decide) p
  have hval := t.value_mul_power
  have hpos : 0 < power 2 (-t.exponent) * power 10 p :=
    Nat.mul_pos (power_pos two_pos _) (power_pos (by decide) _)
  have hneg : (0 : ℚ) < power 2 (-t.exponent) * power 10 (-p) := by
    exact_mod_cast Nat.mul_pos (power_pos two_pos _) (power_pos (by decide) _)
  have hlow := Nat.div_mul_le_self (t.significand * power 2 t.exponent * power 10 (-p))
    (power 2 (-t.exponent) * power 10 p)
  have hhigh := Nat.lt_div_mul_add hpos (a := t.significand * power 2 t.exponent * power 10 (-p))
  change t.floorAt p * _ ≤ _ at hlow
  change _ < t.floorAt p * _ + _ at hhigh
  generalize t.floorAt p = n at *
  have hlow' := (Nat.cast_le (α := ℚ)).mpr hlow
  have hhigh' := (Nat.cast_lt (α := ℚ)).mpr hhigh
  rw [Nat.cast_mul _ (power 10 (-p)), ← hval] at hlow' hhigh'
  push_cast at hten hlow' hhigh'
  rw [← hten] at hlow' hhigh'
  constructor
  · rw [← mul_le_mul_iff_left₀ hneg]
    linarith
  · rw [← mul_lt_mul_iff_left₀ hneg]
    linarith

/-- The digits in front of a place are those of the target, as many as its magnitude leaves. -/
theorem floorAt_magnitude (ht : 0 < t.significand) (hn : 0 < n) :
    0 < t.floorAt (t.magnitude - n) ∧ t.floorAt (t.magnitude - n) < 10 ^ n := by
  obtain ⟨hlow, hhigh⟩ := t.floorAt_spec (t.magnitude - n)
  obtain ⟨hmin, hmax⟩ := magnitude_spec ht
  have hpos : (0 : ℚ) < 10 ^ (t.magnitude - n) := by positivity
  constructor
  · by_contra hz
    have hzero : t.floorAt (t.magnitude - n) = 0 := by omega
    rw [hzero, Nat.cast_zero, zero_add, one_mul] at hhigh
    have : (10 : ℚ) ^ (t.magnitude - n) ≤ 10 ^ (t.magnitude - 1) :=
      zpow_le_zpow_right₀ (by norm_num) (by omega)
    linarith
  · have hsplit : (10 : ℚ) ^ t.magnitude = (10 ^ n : ℕ) * 10 ^ (t.magnitude - n) := by
      push_cast
      rw [← zpow_natCast, ← zpow_add₀ (by norm_num)]
      congr 1
      ring
    have := lt_of_mul_lt_mul_right ((hlow.trans_lt hmax).trans_eq hsplit) hpos.le
    exact_mod_cast this

/-- A decimal next to a target: one of the two around it on a grid. -/
structure Beside (t : Target) (digits : ℕ) (d : Decimal) : Prop where
  exponent_eq : d.exponent = t.magnitude - digits
  significand_eq : d.significand = t.floorAt d.exponent ∨ d.significand = t.floorAt d.exponent + 1

theorem beside_bounds (ht : 0 < t.significand) (hn : 0 < n) (h : Beside t n d) :
    0 < d.significand ∧ d.significand ≤ 10 ^ n ∧ |d.value - t.value| ≤ 10 ^ d.exponent := by
  obtain ⟨hpos, hlt⟩ := floorAt_magnitude ht hn
  obtain ⟨hlow, hhigh⟩ := t.floorAt_spec d.exponent
  have hsig := h.significand_eq
  rw [h.exponent_eq] at hsig
  refine ⟨by omega, by omega, ?_⟩
  rw [Decimal.value]
  rcases h.significand_eq with hs | hs <;> rw [hs, abs_le] <;> push_cast <;>
    constructor <;> linarith

theorem withDigits?_spec (h : t.withDigits? tie n = some d) :
    Beside t n d ∧ t.accepts d = true := by
  have hlower : Beside t n ⟨t.floorAt (t.magnitude - n), t.magnitude - n⟩ := ⟨rfl, Or.inl rfl⟩
  have hupper : Beside t n ⟨t.floorAt (t.magnitude - n) + 1, t.magnitude - n⟩ := ⟨rfl, Or.inr rfl⟩
  simp only [withDigits?] at h
  cases hl : t.accepts ⟨t.floorAt (t.magnitude - n), t.magnitude - n⟩ <;>
    cases hu : t.accepts ⟨t.floorAt (t.magnitude - n) + 1, t.magnitude - n⟩ <;>
    rw [hl, hu] at h
  · cases h
  · cases h
    exact ⟨hupper, hu⟩
  · cases h
    exact ⟨hlower, hl⟩
  · have hor : d = ⟨t.floorAt (t.magnitude - n), t.magnitude - n⟩ ∨
        d = ⟨t.floorAt (t.magnitude - n) + 1, t.magnitude - n⟩ := by
      dsimp only at h
      split at h
      · exact Or.inr (Option.some.inj h).symm
      · exact Or.inl (Option.some.inj h).symm
      · exact Or.inr (Option.some.inj h).symm
      · split at h
        · exact Or.inl (Option.some.inj h).symm
        · exact Or.inr (Option.some.inj h).symm
    rcases hor with rfl | rfl
    · exact ⟨hlower, hl⟩
    · exact ⟨hupper, hu⟩

/-- The shortest decimal is beside its target, and rounds to it unless all digits are needed. -/
theorem shortest_spec (t : Target) (tie : Tie) : ∃ n, 0 < n ∧ n ≤ maxDigits ∧
    Beside t n (t.shortest tie) ∧ (t.accepts (t.shortest tie) = true ∨ n = maxDigits) := by
  rw [shortest]
  cases hf : (List.range maxDigits).findSome? fun n => t.withDigits? tie (n + 1) with
  | none =>
    exact ⟨maxDigits, by decide, le_rfl, ⟨rfl, Or.inl rfl⟩, Or.inr rfl⟩
  | some d =>
    obtain ⟨n, hn, hd⟩ := List.exists_of_findSome?_eq_some hf
    obtain ⟨hb, ha⟩ := withDigits?_spec hd
    exact ⟨n + 1, Nat.succ_pos n, List.mem_range.mp hn, hb, Or.inl ha⟩

end Target
end Strapdown.Decimal
