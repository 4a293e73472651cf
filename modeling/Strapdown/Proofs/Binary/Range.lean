import Strapdown.Proofs.Binary.Counts

/-!
The range of binary numbers, and the order among rounded ones. A result is out of range unless it is
below the number midway between the largest one and the next power of two.
-/
namespace Strapdown.Binary
open Float.Model (Format UnpackedFloat)

variable {spec : Format} {r s : UnpackedFloat} {a b : Float32} {x y d : ℚ} {m n j k t t' w : ℤ}

theorem le_abs_of_near (hn : |(n : ℚ) - y| ≤ 1 / 2) (hm : (m : ℚ) ≤ |y|) : m ≤ |n| := by
  have hdist : |y| - |(n : ℚ)| ≤ |y - n| := abs_sub_abs_le_abs_sub y n
  rw [abs_sub_comm] at hdist
  have hlt : (m : ℚ) < |(n : ℚ)| + 1 := by linarith
  have hlt' : m < |n| + 1 := by exact_mod_cast hlt
  omega

theorem le_mul_two_zpow (hn : m ≤ |n|) : (m : ℚ) * 2 ^ t ≤ |(n : ℚ) * 2 ^ t| := by
  have hpos : (0 : ℚ) < 2 ^ t := by positivity
  have hcast : (m : ℚ) ≤ |(n : ℚ)| := by exact_mod_cast hn
  rw [abs_mul, abs_of_pos hpos]
  exact mul_le_mul_of_nonneg_right hcast hpos.le

/-- What is not below a power of two is not rounded to anything below it. -/
theorem Rounds.le_magnitude (h : Rounds spec x r) (hk : spec.minExponent ≤ k) (hx : 2 ^ k ≤ |x|) :
    2 ^ k ≤ |value r| := by
  obtain ⟨n, t, hv, ht, hn, -⟩ := h.nearest
  have hpos : (0 : ℚ) < 2 ^ t := by positivity
  have hscaled : |x / 2 ^ t| = |x| / 2 ^ t := by rw [abs_div, abs_of_pos hpos]
  rw [hv]
  rcases le_or_gt t k with htk | hkt
  · have hle : ((2 ^ (k - t).toNat : ℤ) : ℚ) ≤ |x / 2 ^ t| := by
      rw [hscaled, le_div_iff₀ hpos, ← two_zpow_eq htk]
      exact hx
    rw [two_zpow_eq htk]
    exact le_mul_two_zpow (le_abs_of_near hn hle)
  · have hbits := two_le_mantissaBits spec
    have hle : ((1 : ℤ) : ℚ) ≤ |x / 2 ^ t| := by
      have hnormal := ht.2.2.resolve_left (by omega)
      rw [hscaled, Int.cast_one, one_le_div hpos]
      exact (zpow_le_zpow_right₀ one_le_two (by omega)).trans hnormal
    have hone := le_mul_two_zpow (t := t) (le_abs_of_near hn hle)
    rw [Int.cast_one, one_mul] at hone
    exact (zpow_le_zpow_right₀ one_le_two hkt.le).trans hone

/-- The least magnitude that is out of range. -/
def overflow : ℚ := 2 ^ 128 - 2 ^ 103

/-- Midway between a full mantissa and the next power of two, the power is the even one. -/
theorem two_pow_le_of_nearest (hn : |(n : ℚ) - y| ≤ 1 / 2)
    (heven : |(n : ℚ) - y| = 1 / 2 → Even n) (hy : 2 ^ 24 - 1 / 2 ≤ |y|) : 2 ^ 24 ≤ |n| := by
  have hfull : (2 ^ 24 - 1 : ℤ) ≤ |n| := by
    refine le_abs_of_near hn ?_
    push_cast
    linarith
  have hne : |n| ≠ 2 ^ 24 - 1 := by
    intro heq
    have hcast : |(n : ℚ)| = 2 ^ 24 - 1 := by exact_mod_cast congrArg (Int.cast (R := ℚ)) heq
    have hdist := abs_sub_abs_le_abs_sub y n
    rw [abs_sub_comm] at hdist
    have hhalf : |(n : ℚ) - y| = 1 / 2 := by
      apply le_antisymm hn
      linarith
    have hodd : ¬ Even (2 ^ 24 - 1 : ℤ) := by decide
    rw [← heq, even_abs] at hodd
    exact hodd (heven hhalf)
  omega

/-- From the middle between the largest number and the next power of two on, what is rounded becomes
that power at least. -/
theorem Rounds.two_pow_le (h : Rounds .binary32 x r) (hx : overflow ≤ |x|) :
    2 ^ 128 ≤ |value r| := by
  unfold overflow at hx
  rcases le_or_gt (2 ^ (128 : ℤ)) |x| with hbig | hsmall
  · have := h.le_magnitude (by decide) hbig
    norm_num at this ⊢
    exact this
  · obtain ⟨n, t, hv, ht, hn, heven⟩ := h.nearest
    have hunit : Ulp .binary32 x 104 := by
      refine ⟨by decide, hsmall, .inr ?_⟩
      norm_num [Format.mantissaBits] at hx ⊢
      linarith
    obtain rfl := ht.unique hunit
    have hlow : (2 ^ 24 - 1 / 2 : ℚ) ≤ |x / 2 ^ (104 : ℤ)| := by
      have hpos : (0 : ℚ) < 2 ^ (104 : ℤ) := by positivity
      rw [abs_div, abs_of_pos hpos, le_div_iff₀ hpos]
      norm_num at hx ⊢
      linarith
    have hpower := le_mul_two_zpow (t := 104) (two_pow_le_of_nearest hn heven hlow)
    rw [hv]
    norm_num at hpower ⊢
    exact hpower

theorem abs_value_store_lt (r : UnpackedFloat) : |value (store .binary32 r)| < 2 ^ 128 :=
  abs_value_lt (fits_unpack _ (by decide))

theorem isFinite_store_iff (h : Rounds .binary32 x r) :
    (store .binary32 r).isFinite = true ↔ |x| < overflow := by
  constructor
  · intro hfin
    have hlt := abs_value_store_lt r
    rw [store_of_isFinite h.canonical hfin] at hlt
    by_contra hge
    exact absurd (h.two_pow_le (not_lt.mp hge)) (not_le.mpr hlt)
  · intro hlt
    unfold overflow at hlt
    have hnear := h.near_unit (j := 104) (by decide) (by
      norm_num [Format.mantissaBits] at hlt ⊢
      linarith)
    have hsub := abs_sub_abs_le_abs_sub (value r) x
    refine isFinite_store h.canonical (by decide) h.isFinite ?_
    norm_num [Format.exponentBias] at hlt hnear hsub ⊢
    linarith

theorem isFinite_add_iff (ha : a.isFinite = true) (hb : b.isFinite = true) :
    (a + b).isFinite = true ↔ |toRat a + toRat b| < overflow :=
  isFinite_store_iff (add_rounds (fits_ofFloat32 a).canonical (fits_ofFloat32 b).canonical ha hb)

theorem isFinite_mul_iff (ha : a.isFinite = true) (hb : b.isFinite = true) :
    (a * b).isFinite = true ↔ |toRat a * toRat b| < overflow :=
  isFinite_store_iff
    (mul_rounds (by decide) (fits_ofFloat32 a).canonical (fits_ofFloat32 b).canonical ha hb)

/-! Rounding keeps the order, and keeps apart what is more than a unit apart. -/

theorem nearest_le (hxy : x ≤ y) (hm : |(m : ℚ) - x| ≤ 1 / 2)
    (hm' : |(m : ℚ) - x| = 1 / 2 → Even m) (hn : |(n : ℚ) - y| ≤ 1 / 2)
    (hn' : |(n : ℚ) - y| = 1 / 2 → Even n) : m ≤ n := by
  by_contra hlt
  have hstep : (n : ℚ) + 1 ≤ m := by exact_mod_cast not_le.mp hlt
  have hxm := (abs_le.mp hm).2
  have hyn := (abs_le.mp hn).1
  obtain rfl : x = y := by linarith
  exact hlt (nearest_unique hm hm' hn hn').le

theorem Rounds.nonpos (h : Rounds spec x r) (hx : x ≤ 0) : value r ≤ 0 := by
  obtain ⟨-, t, -, ht, -⟩ := h.nearest
  simpa using h.le_of_le (k := 0) ht.1 ht.2.1 (by simpa using hx)

/-- Numbers with different units have a power of two between their magnitudes. -/
theorem Ulp.exists_between (ht : Ulp spec x t) (ht' : Ulp spec y t') (h : t < t') :
    ∃ k, spec.minExponent ≤ k ∧ |x| < 2 ^ k ∧ 2 ^ k ≤ |y| := by
  have hbits := two_le_mantissaBits spec
  have hmin := ht.1
  refine ⟨t' + spec.mantissaBits - 1, by omega, ?_, ht'.2.2.resolve_left (by omega)⟩
  exact ht.2.1.trans_le (zpow_le_zpow_right₀ one_le_two (by omega))

theorem Rounds.value_le (hr : Rounds spec x r) (hs : Rounds spec y s) (hxy : x ≤ y) :
    value r ≤ value s := by
  obtain ⟨m, t, hvr, ht, hm, hm'⟩ := hr.nearest
  obtain ⟨n, t', hvs, ht', hn, hn'⟩ := hs.nearest
  rcases lt_trichotomy t t' with htt | rfl | htt
  · obtain ⟨k, hk, hx, hy⟩ := ht.exists_between ht' htt
    have hpos : (0 : ℚ) < 2 ^ k := by positivity
    have hy0 : 0 ≤ y := by
      by_contra hneg
      rw [abs_of_neg (not_le.mp hneg)] at hy
      linarith [neg_abs_le x]
    calc value r ≤ 2 ^ k := (le_abs_self _).trans (hr.magnitude_le hk hx.le)
      _ ≤ |value s| := hs.le_magnitude hk hy
      _ = value s := abs_of_nonneg (hs.nonneg hy0)
  · have hpos : (0 : ℚ) < 2 ^ t := by positivity
    have hmn := nearest_le (div_le_div_of_nonneg_right hxy hpos.le) hm hm' hn hn'
    rw [hvr, hvs]
    exact mul_le_mul_of_nonneg_right (Int.cast_le.mpr hmn) hpos.le
  · obtain ⟨k, hk, hy, hx⟩ := ht'.exists_between ht htt
    have hpos : (0 : ℚ) < 2 ^ k := by positivity
    have hx0 : x ≤ 0 := by
      by_contra hneg
      rw [abs_of_pos (not_le.mp hneg)] at hx
      linarith [le_abs_self y]
    calc value r = -|value r| := by rw [abs_of_nonpos (hr.nonpos hx0), neg_neg]
      _ ≤ -2 ^ k := neg_le_neg (hr.le_magnitude hk hx)
      _ ≤ value s := (abs_le.mp (hs.magnitude_le hk hy.le)).1

theorem Rounds.value_lt (hr : Rounds spec x r) (hs : Rounds spec y s) (hj : spec.minExponent ≤ j)
    (hx : |x| < 2 ^ (j + spec.mantissaBits)) (hy : |y| < 2 ^ (j + spec.mantissaBits))
    (hxy : x + 2 ^ j < y) : value r < value s := by
  have hxr := (abs_le.mp (hr.near_unit hj hx)).2
  have hys := (abs_le.mp (hs.near_unit hj hy)).1
  rw [zpow_sub_one₀ two_ne_zero] at hxr hys
  linarith

/-- Multiples of one number are rounded to different numbers if they are more than a unit apart. -/
theorem Rounds.multiples_lt (hr : Rounds .binary32 (x * d) r) (hs : Rounds .binary32 (y * d) s)
    (hw : -149 ≤ w + k) (hd : 0 < d ∧ d < 2 ^ (w + 1)) (hx : 0 ≤ x) (hxy : x ≤ y)
    (hy : y ≤ 2 ^ (23 + k)) (hgap : 2 ^ (w + k) < (y - x) * d) : value r < value s := by
  have hyd : y * d < 2 ^ (w + k + 24) := by
    calc y * d ≤ 2 ^ (23 + k) * d := mul_le_mul_of_nonneg_right hy hd.1.le
      _ < 2 ^ (23 + k) * 2 ^ (w + 1) := mul_lt_mul_of_pos_left hd.2 (by positivity)
      _ = 2 ^ (w + k + 24) := by
        rw [← zpow_add₀ two_ne_zero]
        congr 1
        omega
  have hxd : x * d ≤ y * d := mul_le_mul_of_nonneg_right hxy hd.1.le
  have hxnn : 0 ≤ x * d := mul_nonneg hx hd.1.le
  refine hr.value_lt hs (j := w + k) hw ?_ ?_ (by linarith)
  · rw [abs_of_nonneg hxnn]
    exact hxd.trans_lt hyd
  · rw [abs_of_nonneg (hxnn.trans hxd)]
    exact hyd

/-! The same for what is stored, where a number out of range counts as larger than all others. -/

theorem store_eq_infinity (hr : Canonical spec r) (hf : r.isFinite = true) (hv : 0 ≤ value r)
    (hs : (store spec r).isFinite = false) : store spec r = .infinity .positive := by
  cases r with
  | infinity sign => cases hf
  | notANumber => cases hf
  | zero sign =>
    rw [store_zero] at hs
    cases hs
  | finite sign m e hm =>
    by_cases he : e ≤ maxExponent spec
    · rw [store_finite hm hr he] at hs
      cases hs
    · cases sign with
      | positive => exact store_overflow hm (not_le.mp he)
      | negative =>
        have hmag : (0 : ℚ) < m * 2 ^ e := by positivity
        rw [value, factor] at hv
        linarith

theorem store_lt (hr : Rounds .binary32 x r) (hs : Rounds .binary32 y s)
    (hfin : (store .binary32 r).isFinite = true) (hv : 0 ≤ value r) (hlt : value r < value s) :
    (store .binary32 r).lt (store .binary32 s) = true := by
  rw [store_of_isFinite hr.canonical hfin]
  cases hf : (store .binary32 s).isFinite with
  | true =>
    rw [store_of_isFinite hs.canonical hf]
    exact (lt_iff_value hr.canonical hs.canonical hr.isFinite hs.isFinite).mpr hlt
  | false =>
    rw [store_eq_infinity hs.canonical hs.isFinite (hv.trans hlt.le) hf]
    cases r with
    | infinity sign => cases hr.isFinite
    | notANumber => cases hr.isFinite
    | zero sign => rfl
    | finite sign m e hm => rfl

theorem store_le (hr : Rounds .binary32 x r) (hs : Rounds .binary32 y s) (hv : 0 ≤ value r)
    (hle : value r ≤ value s) : (store .binary32 r).le (store .binary32 s) = true := by
  cases hf : (store .binary32 s).isFinite with
  | true =>
    have hrange := abs_value_store_lt s
    rw [store_of_isFinite hs.canonical hf, abs_of_nonneg (hv.trans hle)] at hrange
    have hfin : (store .binary32 r).isFinite = true := by
      apply isFinite_store hr.canonical (by decide) hr.isFinite
      rw [abs_of_nonneg hv]
      exact hle.trans_lt hrange
    rw [store_of_isFinite hs.canonical hf, store_of_isFinite hr.canonical hfin,
      le_eq_not_lt hr.isFinite hs.isFinite, Bool.not_eq_true', ← Bool.not_eq_true,
      lt_iff_value hs.canonical hr.canonical hs.isFinite hr.isFinite, not_lt]
    exact hle
  | false =>
    rw [store_eq_infinity hs.canonical hs.isFinite (hv.trans hle) hf]
    cases hfr : (store .binary32 r).isFinite with
    | false =>
      rw [store_eq_infinity hr.canonical hr.isFinite hv hfr]
      rfl
    | true =>
      rw [store_of_isFinite hr.canonical hfr]
      cases r with
      | infinity sign => cases sign <;> rfl
      | notANumber => cases hr.isFinite
      | zero sign => rfl
      | finite sign m e hm => rfl

/-- The powers of two around a positive number. -/
theorem exists_two_zpow (hpos : 0 < toRat a) :
    ∃ w : ℤ, -149 ≤ w ∧ 2 ^ w ≤ toRat a ∧ toRat a < 2 ^ (w + 1) := by
  obtain ⟨w, hlow, hhigh⟩ := exists_mem_Ico_zpow hpos one_lt_two
  refine ⟨w, ?_, hlow, hhigh⟩
  have hleast : (2 : ℚ) ^ (-149 : ℤ) ≤ toRat a := by
    have hfits := fits_ofFloat32 a
    unfold toRat at hpos ⊢
    cases hr : ofFloat32 a with
    | finite sign m e hm =>
      rw [hr] at hpos hfits
      have hmin : -149 ≤ e := (full_or_least hfits.canonical).1
      have hmag : (2 : ℚ) ^ (-149 : ℤ) ≤ m * 2 ^ e := by
        have hone : (1 : ℚ) ≤ m := by exact_mod_cast hm
        have hle : (2 : ℚ) ^ (-149 : ℤ) ≤ 2 ^ e := zpow_le_zpow_right₀ one_le_two hmin
        exact hle.trans (le_mul_of_one_le_left (by positivity) hone)
      cases sign with
      | positive => rwa [value, factor, one_mul]
      | negative =>
        rw [value, factor] at hpos
        linarith [show (0 : ℚ) < m * 2 ^ e by positivity]
    | _ =>
      rw [hr] at hpos
      exact absurd hpos (lt_irrefl 0)
  have hlt := (zpow_lt_zpow_iff_right₀ one_lt_two).mp (hleast.trans_lt hhigh)
  omega

/-- A count in range is rounded to a number. -/
theorem rounds_ofNat {n : ℕ} (hn : (n : ℚ) < overflow) :
    (Float32.ofNat n).isFinite = true ∧ Rounds .binary32 (n : ℚ) (ofFloat32 (Float32.ofNat n)) := by
  obtain ⟨r, hr, hofNat⟩ := exists_rounds_ofNat n
  have hfin := (isFinite_store_iff hr).mpr (by rwa [Nat.abs_cast])
  rw [← isFinite_ofFloat32, hofNat]
  refine ⟨hfin, ?_⟩
  rw [store_of_isFinite hr.canonical hfin]
  exact hr

end Strapdown.Binary
