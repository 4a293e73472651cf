import Strapdown.Proofs.Binary.Bounded
import Strapdown.Proofs.Decimal.Narrowing

/-!
Counts and binary numbers. A binary number is rounded to a whole number exactly, and that number is
again a binary number.
-/
namespace Strapdown.Binary
open Float.Model (Format UnpackedFloat)

variable {spec : Format} {r : UnpackedFloat} {x : ℚ} {a : Float32} {m n k j : ℕ} {e t : ℤ}
  {sign : UnpackedFloat.Sign} {hm : 0 < m}

/-- The nearest whole number, halves away from zero. -/
def roundAway (x : ℚ) : ℤ := if 0 ≤ x then ⌊x + 1 / 2⌋ else ⌈x - 1 / 2⌉

theorem roundAway_of_nonneg (h : 0 ≤ x) : roundAway x = ⌊x + 1 / 2⌋ := if_pos h

theorem roundAway_zero : roundAway 0 = 0 := by decide +kernel

theorem roundAway_neg (x : ℚ) : roundAway (-x) = -roundAway x := by
  rcases lt_trichotomy x 0 with h | rfl | h
  · rw [roundAway, roundAway, if_pos (by linarith), if_neg (by linarith), ← Int.floor_neg]
    congr 1
    ring
  · rw [neg_zero, roundAway_zero, neg_zero]
  · rw [roundAway, roundAway, if_neg (by linarith), if_pos h.le, ← Int.ceil_neg]
    congr 1
    ring

theorem roundAway_nonneg (h : 0 ≤ x) : 0 ≤ roundAway x := by
  rw [roundAway_of_nonneg h]
  exact Int.floor_nonneg.mpr (by linarith)

theorem abs_roundAway_sub_le (x : ℚ) : |roundAway x - x| ≤ 1 / 2 := by
  unfold roundAway
  rw [abs_le]
  split
  · have hle := Int.floor_le (x + 1 / 2)
    have hlt := Int.lt_floor_add_one (x + 1 / 2)
    constructor <;> linarith
  · have hle := Int.le_ceil (x - 1 / 2)
    have hlt := Int.ceil_lt_add_one (x - 1 / 2)
    constructor <;> linarith

theorem nearestWhole_eq (m : ℕ) (e : ℤ) : (nearestWhole m e : ℤ) = roundAway (m * 2 ^ e) := by
  rw [roundAway_of_nonneg (by positivity)]
  cases e with
  | ofNat e =>
    have hwhole : (m : ℚ) * 2 ^ (Int.ofNat e) = (nearestWhole m e : ℤ) := by
      rw [Int.ofNat_eq_natCast, zpow_natCast]
      change _ = (((m * 2 ^ e : ℕ) : ℤ) : ℚ)
      push_cast
      rfl
    rw [hwhole, Int.floor_intCast_add]
    norm_num
  | negSucc e =>
    have hshift : (m : ℚ) * 2 ^ (Int.negSucc e) + 1 / 2 =
        ((m + 2 ^ e : ℕ) : ℤ) / ((2 ^ (e + 1) : ℕ) : ℚ) := by
      rw [zpow_negSucc]
      push_cast
      field_simp
      ring
    rw [hshift, Rat.floor_intCast_div_natCast]
    rfl

/-- What is a multiple of its unit is not changed by rounding. -/
theorem Rounds.value_eq {k : ℤ} (h : Rounds spec x r) (ht : spec.minExponent ≤ t)
    (hk : |k| < 2 ^ spec.mantissaBits) (hx : x = k * 2 ^ t) : value r = x := by
  have hlt : |x| < 2 ^ (t + spec.mantissaBits) := by
    have hcast : (|k| : ℚ) < 2 ^ spec.mantissaBits := by exact_mod_cast hk
    have hpos : (0 : ℚ) < 2 ^ t := by positivity
    rw [hx, abs_mul, abs_of_pos hpos, add_comm t, zpow_add₀ two_ne_zero, zpow_natCast]
    exact mul_lt_mul_of_pos_right hcast hpos
  have hle := h.le_of_le ht hlt hx.le
  have hge := h.le_of_ge ht hlt hx.ge
  rw [hx]
  exact le_antisymm hle hge

/-- A count of a 64-bit word is rounded once. -/
theorem ofFloat32_toFloat32 (n : UInt64) : ofFloat32 n.toFloat32 =
    store .binary32 (UnpackedFloat.normalize .binary32 n.toNat 0 .positive) := rfl

theorem toRat_toFloat32 {n : UInt64} (h : n.toNat < 2 ^ 24) :
    n.toFloat32.isFinite = true ∧ toRat n.toFloat32 = n.toNat := by
  have hr : Rounds .binary32 _ _ := normalize_rounds n.toNat 0 .positive
  have hv := hr.value_eq (t := 0) (by decide) (by simpa using mod_cast h) rfl
  rw [zpow_zero, mul_one, Int.cast_natCast] at hr hv
  have hlt : (n.toNat : ℚ) < 2 ^ 24 := by exact_mod_cast h
  have hfin := isFinite_store_of_rounds hr (by rw [Nat.abs_cast]; linarith)
  rw [← isFinite_ofFloat32, toRat, ofFloat32_toFloat32, store_of_isFinite hr.canonical hfin]
  exact ⟨hr.isFinite, hv⟩

/-- A count as a binary number is rounded once. -/
theorem exists_rounds_ofNat (n : ℕ) : ∃ r, Rounds .binary32 (n : ℚ) r ∧
    ofFloat32 (Float32.ofNat n) = store .binary32 r := by
  -- Small numerals are converted from a machine word and then multiplied by one.
  by_cases h : n < 2 ^ 23
  · have hfloat : Float32.ofNat n = n.toUInt64.toFloat32 * Float32.ofBits 1065353216 := by
      change Float32.ofScientific n false 0 = _
      rw [Float32.ofScientific, dif_pos ⟨h, by decide⟩]
      rfl
    have hone : toRat (Float32.ofBits 1065353216) = 1 := by decide +kernel
    have hword : n.toUInt64.toNat = n := UInt64.toNat_ofNat_of_lt (by
      change n < 2 ^ 64
      omega)
    obtain ⟨hfin, hv⟩ := toRat_toFloat32 (n := n.toUInt64) (by omega)
    have hr : Rounds .binary32 _ _ := mul_rounds (by decide)
      (fits_ofFloat32 n.toUInt64.toFloat32).canonical
      (fits_ofFloat32 (Float32.ofBits 1065353216)).canonical hfin (by decide +kernel)
    rw [← toRat, ← toRat, hv, hone, hword, mul_one] at hr
    exact ⟨_, hr, hfloat ▸ ofFloat32_mul _ _⟩
  · have hfloat : ofFloat32 (Float32.ofNat n) = store .binary32 (.ofScientific .binary32 n 0) := by
      change ofFloat32 (Float32.ofScientific n false 0) = _
      rw [Float32.ofScientific, dif_neg (by tauto)]
      rfl
    have hr := Decimal.ofScientific_rounds .binary32 ⟨n, 0⟩ (by change 0 < n; omega) (by simp)
      (by simp)
    rw [Decimal.value, zpow_zero, mul_one] at hr
    exact ⟨_, hr, hfloat⟩

/-- A count whose significant part fits is a binary number itself. -/
theorem toRat_ofNat (hk : k < 2 ^ 24) (hj : j ≤ 104) (hn : n = k * 2 ^ j) :
    (Float32.ofNat n).isFinite = true ∧ toRat (Float32.ofNat n) = n := by
  obtain ⟨r, hr, hofNat⟩ := exists_rounds_ofNat n
  have hv := hr.value_eq (k := k) (t := j) (by change -149 ≤ (j : ℤ); omega)
    (by simpa using mod_cast hk) (by rw [hn, zpow_natCast]; push_cast; rfl)
  have hlt : n < 2 ^ 24 * 2 ^ 104 := by
    rw [hn]
    exact Nat.mul_lt_mul_of_lt_of_le hk (Nat.pow_le_pow_right two_pos hj) (by positivity)
  have hrange : |value r| < 2 ^ 128 := by
    rw [hv, Nat.abs_cast]
    exact_mod_cast hlt
  have hfin := isFinite_store hr.canonical (by decide) hr.isFinite hrange
  rw [← isFinite_ofFloat32, toRat, hofNat, store_of_isFinite hr.canonical hfin]
  exact ⟨hr.isFinite, hv⟩

/-- Rounding leaves a significand that fits. -/
theorem exists_nearestWhole_eq (hf : Fits .binary32 (.finite sign m e hm)) :
    ∃ k j, k < 2 ^ 24 ∧ j ≤ 104 ∧ nearestWhole m e = k * 2 ^ j := by
  have hlog : m.log2 + 1 ≤ 24 := by
    have hfull := full_or_least hf.canonical
    change _ ∧ (_ = 24 ∨ _ ∧ _ ≤ 24) at hfull
    omega
  have hlt : m < 2 ^ 24 := Nat.lt_log2_self.trans_le (Nat.pow_le_pow_right two_pos hlog)
  have hmax : e ≤ 127 - 23 := hf.bounded _ _ _ _ rfl
  cases e with
  | ofNat e => exact ⟨m, e, hlt, by simpa using hmax, rfl⟩
  | negSucc e =>
    refine ⟨nearestWhole m (.negSucc e), 0, ?_, by omega, (mul_one _).symm⟩
    change (m + 2 ^ e) / 2 ^ (e + 1) < 2 ^ 24
    have hpos := Nat.two_pow_pos e
    rw [Nat.div_lt_iff_lt_mul (by positivity), pow_succ]
    omega

theorem toRat_ofNat_nearestWhole (hf : Fits .binary32 (.finite sign m e hm)) :
    (Float32.ofNat (nearestWhole m e)).isFinite = true ∧
      toRat (Float32.ofNat (nearestWhole m e)) = roundAway (m * 2 ^ e) := by
  obtain ⟨k, j, hk, hj, hn⟩ := exists_nearestWhole_eq hf
  obtain ⟨hfin, hv⟩ := toRat_ofNat hk hj hn
  rw [hv, ← nearestWhole_eq, Int.cast_natCast]
  exact ⟨hfin, rfl⟩

/-- Rounding to a whole number is exact. -/
theorem toRat_roundWhole (h : a.isFinite = true) :
    (roundWhole a).isFinite = true ∧ toRat (roundWhole a) = roundAway (toRat a) := by
  have hfits := fits_ofFloat32 a
  have hfinite := h
  unfold roundWhole
  rw [← isFinite_ofFloat32] at hfinite
  cases hr : ofFloat32 a with
  | infinity s => rw [hr] at hfinite; cases hfinite
  | notANumber => rw [hr] at hfinite; cases hfinite
  | zero s =>
    have hzero : toRat a = 0 := congrArg value hr
    rw [hzero, roundAway_zero, Int.cast_zero]
    exact ⟨h, rfl⟩
  | finite s m e hm =>
    rw [hr] at hfits
    obtain ⟨hfin, hv⟩ := toRat_ofNat_nearestWhole hfits
    cases s with
    | positive =>
      have hvalue : toRat a = m * 2 ^ e := by rw [toRat, hr, value, factor, one_mul]
      rw [hvalue]
      exact ⟨hfin, hv⟩
    | negative =>
      have hvalue : toRat a = -(m * 2 ^ e) := by rw [toRat, hr, value, factor, neg_one_mul]
      rw [hvalue, roundAway_neg, Int.cast_neg, ← hv, ← toRat_neg]
      exact ⟨(isFinite_neg _).trans hfin, rfl⟩

/-- What is not finite stays so. -/
theorem roundWhole_of_not_finite (h : a.isFinite = false) : roundWhole a = a := by
  rw [← isFinite_ofFloat32] at h
  unfold roundWhole
  split
  · next hr => rw [hr] at h; cases h
  · next hr => rw [hr] at h; cases h
  · rfl

/-- The count of a number that is not negative: its nearest whole number, as far as counts go. -/
theorem toCount_eq (h : a.isFinite = true) (hnn : 0 ≤ toRat a) :
    (toCount a : ℤ) = min (roundAway (toRat a)) maxCount := by
  rw [← isFinite_ofFloat32] at h
  unfold toCount
  cases hr : ofFloat32 a with
  | infinity s => rw [hr] at h; cases h
  | notANumber => rw [hr] at h; cases h
  | zero s =>
    have hzero : toRat a = 0 := congrArg value hr
    rw [hzero, roundAway_zero, min_eq_left (Int.natCast_nonneg _)]
    rfl
  | finite s m e hm =>
    have hvalue : toRat a = factor s * (m * 2 ^ e) := by rw [toRat, hr, value]
    cases s with
    | positive =>
      rw [hvalue, factor, one_mul, ← nearestWhole_eq]
      push_cast
      rfl
    | negative =>
      have hpos : (0 : ℚ) < m * 2 ^ e := by positivity
      rw [hvalue, factor] at hnn
      linarith

end Strapdown.Binary
