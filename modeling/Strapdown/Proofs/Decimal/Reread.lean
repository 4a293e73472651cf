import Strapdown.Proofs.Decimal.NearTies

/-! A binary32 number is what its shortest decimal is read as, but for one magnitude. -/
namespace Strapdown.Decimal
open Float.Model (Format UnpackedFloat totalExponent)
open Float.Model.UnpackedFloat
open Strapdown.Binary

variable {sign : Sign} {m n D N : ℕ} {e p q : ℤ} {hm : 0 < m} {s t : Target} {d : Decimal}

theorem Target.magnitude_mono (hs : 0 < s.significand) (ht : 0 < t.significand)
    (h : s.value ≤ t.value) : s.magnitude ≤ t.magnitude := by
  have hlow := (magnitude_spec hs).1
  have hhigh := (magnitude_spec ht).2
  have hlt := (zpow_lt_zpow_iff_right₀ (by norm_num)).mp ((hlow.trans h).trans_lt hhigh)
  omega

theorem significand_bounds (hf : Fits .binary32 (.finite sign m e hm)) :
    -149 ≤ e ∧ e ≤ 104 ∧ least e ≤ m ∧ m ≤ 2 ^ 24 - 1 := by
  obtain ⟨hmin, hlog⟩ := full_or_least hf.canonical
  have hmax : e ≤ 127 - 23 := hf.bounded _ _ _ _ rfl
  have hlt : m < 2 ^ 24 := lt_two_pow hf.canonical
  change -149 ≤ e at hmin
  change m.log2 + 1 = 24 ∨ e = -149 ∧ m.log2 + 1 ≤ 24 at hlog
  refine ⟨hmin, hmax, ?_, by omega⟩
  rw [least]
  split
  · exact hm
  · rw [← Nat.le_log2 hm.ne']
    omega

theorem clearedAt_magnitude (hf : Fits .binary32 (.finite sign m e hm)) :
    clearedAt (e - 1) ((targetIn .binary32 m e).magnitude - 8) = true := by
  obtain ⟨hmin, hmax, hleast, hmost⟩ := significand_bounds hf
  have hpos : (0 : ℚ) ≤ 2 ^ e := by positivity
  have hleast' : 0 < least e := by
    rw [least]
    split <;> decide
  have hlow : Target.magnitude ⟨least e, e, false⟩ ≤ (targetIn .binary32 m e).magnitude :=
    Target.magnitude_mono hleast' hm (mul_le_mul_of_nonneg_right (Nat.cast_le.mpr hleast) hpos)
  have hhigh : (targetIn .binary32 m e).magnitude ≤ Target.magnitude ⟨2 ^ 24 - 1, e, false⟩ :=
    Target.magnitude_mono hm (by norm_num : 0 < 2 ^ 24 - 1)
      (mul_le_mul_of_nonneg_right (Nat.cast_le.mpr hmost) hpos)
  have hmem : (targetIn .binary32 m e).magnitude - 8 ∈ places e := by
    rw [places, List.mem_map]
    refine ⟨((targetIn .binary32 m e).magnitude -
      Target.magnitude ⟨least e, e, false⟩).toNat, ?_, ?_⟩
    · rw [List.mem_range]
      omega
    · rw [Int.toNat_of_nonneg (by omega)]
      ring
  have hall := List.all_eq_true.mp clearedAt_places (e + 149).toNat (List.mem_range.mpr (by omega))
  rw [Int.toNat_of_nonneg (by omega), add_sub_cancel_right] at hall
  exact List.all_eq_true.mp hall _ hmem

theorem sub_scaled (D N : ℕ) (p q : ℤ) :
    ((D * (power 10 p * power 2 (-q)) : ℕ) : ℚ) - (N * (power 2 q * power 10 (-p)) : ℕ) =
      (D * 10 ^ p - N * 2 ^ q) * (power 2 (-q) * power 10 (-p) : ℕ) := by
  have hten := power_div 10 (by decide) p
  have htwo := power_div 2 (by decide) q
  push_cast at hten htwo ⊢
  rw [← hten, ← htwo]
  ring

theorem scale_pos (p q : ℤ) : 0 < power 2 (-q) * power 10 (-p) :=
  Nat.mul_pos (power_pos two_pos _) (power_pos (by decide) _)

theorem dist_of_near (h : |(D : ℚ) * 10 ^ p - N * 2 ^ q| ≤ 2 ^ (q - 29)) :
    Nat.dist (D * (power 10 p * power 2 (-q))) (N * (power 2 q * power 10 (-p))) * 2 ^ 29 ≤
      power 2 q * power 10 (-p) := by
  have htwo := power_div 2 (by decide) q
  have hpos : (0 : ℚ) < (power 2 (-q) * power 10 (-p) : ℕ) := by exact_mod_cast scale_pos p q
  have hdist (x y : ℕ) : (Nat.dist x y : ℚ) = |(x : ℚ) - y| := by
    rcases le_total x y with hle | hle
    · rw [Nat.dist_eq_sub_of_le hle, Nat.cast_sub hle, abs_sub_comm, abs_of_nonneg]
      exact sub_nonneg.mpr (Nat.cast_le.mpr hle)
    · rw [Nat.dist_eq_sub_of_le_right hle, Nat.cast_sub hle, abs_of_nonneg]
      exact sub_nonneg.mpr (Nat.cast_le.mpr hle)
  have hunit : (2 : ℚ) ^ q = 2 ^ (q - 29) * 2 ^ 29 := by
    rw [← zpow_natCast, ← zpow_add₀ two_ne_zero]
    congr 1
    ring
  have hscaled := mul_le_mul_of_nonneg_right h hpos.le
  rw [← Nat.cast_le (α := ℚ), Nat.cast_mul, hdist, sub_scaled, abs_mul, abs_of_pos hpos]
  push_cast at htwo hscaled ⊢
  calc |(D : ℚ) * 10 ^ p - N * 2 ^ q| * (power 2 (-q) * power 10 (-p)) * 2 ^ 29
      ≤ (2 : ℚ) ^ (q - 29) * (power 2 (-q) * power 10 (-p)) * 2 ^ 29 := by linarith
    _ = (2 : ℚ) ^ q * power 2 (-q) * power 10 (-p) := by
        rw [hunit]
        ring
    _ = power 2 q * power 10 (-p) := by rw [htwo]

/-- Nine digits are far from the ends of what rounds to a number. -/
theorem far_of_nine (hf : Fits .binary32 (.finite sign m e hm)) (hn : 9 ≤ n)
    (hd : |d.value - (targetIn .binary32 m e).value| ≤
      10 ^ ((targetIn .binary32 m e).magnitude - n)) :
    (targetIn .binary32 m e).low + 2 ^ (e - 30) < d.value ∧
      d.value + 2 ^ (e - 30) < (targetIn .binary32 m e).high := by
  obtain ⟨-, -, -, hmost⟩ := significand_bounds hf
  have hpos : (0 : ℚ) < 2 ^ e := by positivity
  have hm' : (m : ℚ) ≤ 2 ^ 24 := by exact_mod_cast hmost.trans (Nat.sub_le _ _)
  have hmag := (Target.magnitude_spec (t := targetIn .binary32 m e) hm).1
  have hval : (targetIn .binary32 m e).value = m * 2 ^ e := rfl
  have hplace : (10 : ℚ) ^ ((targetIn .binary32 m e).magnitude - n) ≤ m * 2 ^ e / 10 ^ 8 := by
    rw [← hval]
    refine le_trans ?_ (div_le_div_of_nonneg_right hmag (by norm_num))
    rw [div_eq_mul_inv, ← zpow_natCast, ← zpow_neg, ← zpow_add₀ (by norm_num)]
    refine zpow_le_zpow_right₀ (by norm_num) ?_
    push_cast
    omega
  have hunit : (2 : ℚ) ^ (e - 30) = 2 ^ e / 2 ^ 30 := by
    rw [zpow_sub₀ two_ne_zero]
    norm_num
  have hclose : (m : ℚ) * 2 ^ e ≤ 2 ^ 24 * 2 ^ e := mul_le_mul_of_nonneg_right hm' hpos.le
  rw [hval, abs_le] at hd
  rw [low_eq, high_eq, hunit]
  constructor
  · split <;> linarith
  · linarith

theorem magnitude_bounds (hf : Fits .binary32 (.finite sign m e hm)) :
    -149 ≤ (targetIn .binary32 m e).magnitude ∧ (targetIn .binary32 m e).magnitude ≤ 129 := by
  obtain ⟨hmin, hmax, -, hmost⟩ := significand_bounds hf
  obtain ⟨hlow, hhigh⟩ := Target.magnitude_spec (t := targetIn .binary32 m e) hm
  have hval : (targetIn .binary32 m e).value = m * 2 ^ e := rfl
  rw [hval] at hlow hhigh
  have hpos : (0 : ℚ) < 2 ^ e := by positivity
  have hone : (1 : ℚ) ≤ m := by exact_mod_cast hm
  have hm' : (m : ℚ) ≤ 2 ^ 24 := by exact_mod_cast hmost.trans (Nat.sub_le _ _)
  constructor
  · have hleast : (10 : ℚ) ^ (-149 : ℤ) < 10 ^ (targetIn .binary32 m e).magnitude :=
      calc (10 : ℚ) ^ (-149 : ℤ) ≤ 2 ^ (-149 : ℤ) := by norm_num
        _ ≤ 2 ^ e := zpow_le_zpow_right₀ one_le_two hmin
        _ ≤ m * 2 ^ e := le_mul_of_one_le_left hpos.le hone
        _ < _ := hhigh
    exact ((zpow_lt_zpow_iff_right₀ (by norm_num)).mp hleast).le
  · have hgreatest : (10 : ℚ) ^ ((targetIn .binary32 m e).magnitude - 1) ≤ 10 ^ (128 : ℤ) :=
      calc (10 : ℚ) ^ ((targetIn .binary32 m e).magnitude - 1) ≤ m * 2 ^ e := hlow
        _ ≤ 2 ^ 24 * 2 ^ (104 : ℤ) :=
          mul_le_mul hm' (zpow_le_zpow_right₀ one_le_two hmax) hpos.le (by norm_num)
        _ ≤ 10 ^ (128 : ℤ) := by norm_num
    have := (zpow_le_zpow_iff_right₀ (by norm_num)).mp hgreatest
    omega

theorem middle_eq (hodd : m % 2 = 1) : (targetIn .binary32 m e).low =
      (2 * m - 1 : ℕ) * 2 ^ (e - 1) ∧
    (targetIn .binary32 m e).high = (2 * m + 1 : ℕ) * 2 ^ (e - 1) := by
  have hopen : (targetIn .binary32 m e).closeBelow = false := by
    rw [Bool.eq_false_iff, ne_eq, closeBelow_iff]
    rintro ⟨rfl, -⟩
    exact absurd hodd (by decide)
  have hunit : (2 : ℚ) ^ e = 2 * 2 ^ (e - 1) := by
    rw [zpow_sub_one₀ two_ne_zero]
    ring
  rw [low_eq, high_eq, hopen, hunit, Nat.cast_sub (by omega)]
  push_cast
  constructor <;> norm_num <;> ring

/-- A decimal of few digits has no more than eight at a fixed place. -/
theorem exists_eight (hn : n ≤ 8) (hexp : d.exponent = q - n) (hsig : d.significand ≤ 10 ^ n) :
    ∃ D ≤ 10 ^ 8, d.value = (D : ℕ) * 10 ^ (q - 8) := by
  refine ⟨d.significand * 10 ^ (8 - n), ?_, ?_⟩
  · calc d.significand * 10 ^ (8 - n) ≤ 10 ^ n * 10 ^ (8 - n) := Nat.mul_le_mul_right _ hsig
      _ = 10 ^ 8 := by rw [← pow_add, Nat.add_sub_cancel' hn]
  · rw [Decimal.value, hexp, Nat.cast_mul, mul_assoc]
    push_cast
    rw [← zpow_natCast, ← zpow_add₀ (by norm_num)]
    congr 2
    omega

/-- A decimal next to a tie is next to one that has been cleared. -/
theorem cleared_around (hclear : clearedAt (e - 1) p = true) (hD : D ≤ 10 ^ 8) (hN : N % 2 = 1)
    (hdist : |(D : ℚ) * 10 ^ p - N * 2 ^ (e - 1)| ≤ 2 ^ (e - 30))
    (hne : (D : ℚ) * 10 ^ p ≠ N * 2 ^ (e - 1)) : Cleared (N / 2) e ∧ Cleared (N / 2 + 1) e := by
  rw [show e - 30 = e - 1 - 29 by ring] at hdist
  have hties := cleared_of_near hclear hD hN (dist_of_near hdist) ?_
  · rwa [sub_add_cancel] at hties
  · intro heq
    have hzero := sub_scaled D N p (e - 1)
    rw [heq, sub_self, eq_comm, mul_eq_zero, sub_eq_zero, Nat.cast_eq_zero] at hzero
    exact hzero.elim hne (scale_pos p (e - 1)).ne'

/-- A decimal of eight digits near the end of what rounds to a number is near a tie. -/
theorem cleared_of_end (hf : Fits .binary32 (.finite sign m e hm)) (hodd : m % 2 = 1) (hn : n ≤ 8)
    (hexp : d.exponent = (targetIn .binary32 m e).magnitude - n) (hsig : d.significand ≤ 10 ^ n)
    (h : (targetIn .binary32 m e).Holds d.value)
    (hend : ¬ ((targetIn .binary32 m e).low + 2 ^ (e - 30) < d.value ∧
      d.value + 2 ^ (e - 30) < (targetIn .binary32 m e).high)) : Cleared m e := by
  obtain ⟨hlow, hhigh⟩ := middle_eq (e := e) hodd
  obtain ⟨-, -, hstrict⟩ := h
  obtain ⟨habove, hbelow⟩ := hstrict hodd
  have hcleared := clearedAt_magnitude hf
  obtain ⟨D, hD, hval⟩ := exists_eight hn hexp hsig
  rw [hlow, hval] at habove
  rw [hhigh, hval] at hbelow
  rw [not_and_or, not_lt, not_lt, hlow, hhigh, hval] at hend
  rcases hend with hleft | hright
  · have hdist : |(D : ℚ) * 10 ^ ((targetIn .binary32 m e).magnitude - 8) -
        (2 * m - 1 : ℕ) * 2 ^ (e - 1)| ≤ 2 ^ (e - 30) := by
      rw [abs_of_pos (sub_pos.mpr habove)]
      linarith
    have hties := (cleared_around hcleared hD (by omega) hdist habove.ne').2
    rwa [show (2 * m - 1) / 2 + 1 = m by omega] at hties
  · have hdist : |(D : ℚ) * 10 ^ ((targetIn .binary32 m e).magnitude - 8) -
        (2 * m + 1 : ℕ) * 2 ^ (e - 1)| ≤ 2 ^ (e - 30) := by
      rw [abs_of_neg (sub_neg.mpr hbelow)]
      linarith
    have hties := (cleared_around hcleared hD (by omega) hdist hbelow.ne).1
    rwa [show (2 * m + 1) / 2 = m by omega] at hties

/-- Every binary32 number but one is what its shortest decimal is read as. -/
theorem survives (hf : Fits .binary32 (.finite sign m e hm)) (hne : ¬ (m = 11420669 ∧ e = -107)) :
    Survives sign m e hm := by
  obtain ⟨n, hn, hn17, hbeside, haccepts⟩ := (targetIn .binary32 m e).shortest_spec .even
  obtain ⟨hpos, hsig, hdist⟩ := Target.beside_bounds hm hn hbeside
  obtain ⟨hleast, hgreatest⟩ := magnitude_bounds hf
  have hexp := hbeside.exponent_eq
  rw [Target.maxDigits] at hn17
  rw [hexp] at hdist
  have hread := narrow_literal (d := (targetIn .binary32 m e).shortest .even) hf hpos (by omega)
    (by omega)
  by_cases hnine : 9 ≤ n
  · have hfar := far_of_nine hf hnine hdist
    have hunit : (0 : ℚ) < 2 ^ (e - 30) := by positivity
    exact hread ⟨by linarith, by linarith, fun _ => ⟨by linarith, by linarith⟩⟩ fun _ => hfar
  · have hholds := (Target.accepts_iff hm).mp (haccepts.resolve_right (by rw [Target.maxDigits]; omega))
    by_cases hclear : m % 2 = 1 → (targetIn .binary32 m e).low + 2 ^ (e - 30) <
        ((targetIn .binary32 m e).shortest .even).value ∧
      ((targetIn .binary32 m e).shortest .even).value + 2 ^ (e - 30) <
        (targetIn .binary32 m e).high
    · exact hread hholds hclear
    · obtain ⟨hodd, hend⟩ := Classical.not_imp.mp hclear
      have hcleared := cleared_of_end hf hodd (by omega) hexp hsig hholds hend hf.canonical hne hm
      cases sign
      · exact hcleared.2
      · exact hcleared.1

/-- The one magnitude that is read as its upper neighbour. -/
theorem reread_exception (sign : Sign) : (reread sign 11420669 (-107)).isFinite = true ∧
    narrow (reread sign 11420669 (-107)) = toFloat32 (.finite sign 11420670 (-107) (by decide)) := by
  cases sign <;> decide +kernel

/-- Literals of one value are read alike. -/
theorem toBinary64_congr {l l' : Literal} (hn : l.negative = l'.negative)
    (hv : l.magnitude.value = l'.magnitude.value) (hpos : 0 < l.magnitude.significand)
    (hpos' : 0 < l'.magnitude.significand) (hexp : |l.magnitude.exponent| ≤ 200)
    (hexp' : |l'.magnitude.exponent| ≤ 200) : l.toBinary64 = l'.toBinary64 := by
  rw [abs_le] at hexp hexp'
  have hbits : (2 : ℤ) ^ Format.binary64.exponentBits = 2048 := by decide
  have hr := ofScientific_rounds .binary64 l.magnitude hpos (by omega) (by omega)
  have hr' := ofScientific_rounds .binary64 l'.magnitude hpos' (by omega) (by omega)
  have hlarge : (2 : ℚ) ^ Format.binary64.minExponent ≤ |l.magnitude.value| := by
    have hone : (1 : ℚ) ≤ l.magnitude.significand := by exact_mod_cast hpos
    rw [Decimal.value, abs_of_nonneg (by positivity)]
    calc (2 : ℚ) ^ Format.binary64.minExponent ≤ 2 ^ (4 * -200 : ℤ) :=
          zpow_le_zpow_right₀ one_le_two (by decide)
      _ = ((2 ^ 4) ^ 200)⁻¹ := by rw [zpow_mul, zpow_neg]; rfl
      _ ≤ (10 ^ 200)⁻¹ :=
          inv_anti₀ (by positivity) (pow_le_pow_left₀ (by norm_num) (by norm_num) 200)
      _ = 10 ^ (-200 : ℤ) := by rw [zpow_neg]; rfl
      _ ≤ 10 ^ l.magnitude.exponent := zpow_le_zpow_right₀ (by norm_num) (by omega)
      _ ≤ l.magnitude.significand * 10 ^ l.magnitude.exponent :=
          le_mul_of_one_le_left (by positivity) hone
  rw [← hv] at hr'
  rw [Literal.toBinary64, Literal.toBinary64, hr.unique hr' (hr.value_ne_zero hlarge), hn]

end Strapdown.Decimal
