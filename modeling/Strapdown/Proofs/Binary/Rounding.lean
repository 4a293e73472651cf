import Strapdown.Binary
import Mathlib

/-! Rounding to a format is rounding to the nearest multiple of a power of two, ties to even. -/
namespace Strapdown.Binary
open Float.Model (Format UnpackedFloat totalExponent)
open Float.Model.UnpackedFloat

variable {K : Type} [Field K] [LinearOrder K] [IsStrictOrderedRing K]
variable {spec : Format} {sign : Sign} {m n : ℕ} {e t : ℤ} {acc : Accuracy} {x : K}

/-- The whole number nearest to `x`, of two equally near ones the even one. -/
def NearestEven (x : K) (n : ℕ) : Prop :=
  |(n : K) - x| ≤ 1 / 2 ∧ (|(n : K) - x| = 1 / 2 → Even n)

/-- The residual bits of a significand tell where `x` lies between it and the next one. -/
def Residue (em : ExtendedMantissa) (x : K) : Prop :=
  ∃ f : K, 0 ≤ f ∧ f < 1 / 2 ∧ (em.stickyBit = true ↔ f ≠ 0) ∧
    x = em.mantissa + (if em.roundBit then 1 / 2 else 0) + f

theorem residue_exact (m : ℕ) : Residue (.ofMantissaAndAccuracy m .exact) (m : K) :=
  ⟨0, le_rfl, by norm_num, by simp [ExtendedMantissa.ofMantissaAndAccuracy],
    by simp [ExtendedMantissa.ofMantissaAndAccuracy]⟩

omit [IsStrictOrderedRing K] in
theorem residue_lt (m : ℕ) {f : K} (hf : 0 < f) (hf' : f < 1 / 2) :
    Residue (.ofMantissaAndAccuracy m (.inexact .lt)) (m + f) :=
  ⟨f, hf.le, hf', by simp [ExtendedMantissa.ofMantissaAndAccuracy, hf.ne'],
    by simp [ExtendedMantissa.ofMantissaAndAccuracy]⟩

theorem residue_eq (m : ℕ) : Residue (.ofMantissaAndAccuracy m (.inexact .eq)) (m + 1 / 2 : K) :=
  ⟨0, le_rfl, by norm_num, by simp [ExtendedMantissa.ofMantissaAndAccuracy],
    by simp [ExtendedMantissa.ofMantissaAndAccuracy]⟩

theorem residue_gt (m : ℕ) {f : K} (hf : 1 / 2 < f) (hf' : f < 1) :
    Residue (.ofMantissaAndAccuracy m (.inexact .gt)) (m + f) := by
  have hne : f - 1 / 2 ≠ 0 := by linarith
  refine ⟨f - 1 / 2, by linarith, by linarith, ?_, ?_⟩
  · simpa [ExtendedMantissa.ofMantissaAndAccuracy] using hne
  · simp only [ExtendedMantissa.ofMantissaAndAccuracy, ↓reduceIte]
    ring

theorem residue_shiftRightOne {em : ExtendedMantissa} (h : Residue em x) :
    Residue em.shiftRightOne (x / 2) := by
  obtain ⟨f, hf, hf', hs, hx⟩ := h
  have hm : (em.mantissa : K) = 2 * (em.mantissa / 2 : ℕ) + (em.mantissa % 2 : ℕ) := by
    exact_mod_cast (Nat.div_add_mod em.mantissa 2).symm
  refine ⟨(if em.roundBit then 1 / 4 else 0) + f / 2, ?_, ?_, ?_, ?_⟩
  · split <;> linarith
  · split <;> linarith
  · cases hr : em.roundBit
    · simp [ExtendedMantissa.shiftRightOne, hr, hs]
    · have : (1 / 4 + f / 2 : K) ≠ 0 := by linarith
      simpa [ExtendedMantissa.shiftRightOne, hr] using this
  · rw [hx, hm]
    rcases Nat.mod_two_eq_zero_or_one em.mantissa with hp | hp <;>
      cases hr : em.roundBit <;> simp [ExtendedMantissa.shiftRightOne, hp] <;> ring

theorem residue_shiftRight {em : ExtendedMantissa} (h : Residue em x) (k : ℕ) :
    Residue (em >>> k) (x / 2 ^ k) := by
  change Residue (k.repeat ExtendedMantissa.shiftRightOne em) _
  induction k with
  | zero => simpa [Nat.repeat] using h
  | succ k ih =>
    have hk := residue_shiftRightOne ih
    rwa [div_div, ← pow_succ] at hk

theorem mantissa_shiftRight (em : ExtendedMantissa) (k : ℕ) :
    (em >>> k).mantissa = em.mantissa / 2 ^ k := by
  change (k.repeat ExtendedMantissa.shiftRightOne em).mantissa = _
  induction k with
  | zero => simp [Nat.repeat]
  | succ k ih =>
    rw [Nat.repeat, ExtendedMantissa.shiftRightOne, ih, Nat.div_div_eq_div_mul, ← pow_succ]

theorem nearestEven_roundedMantissa {em : ExtendedMantissa} (h : Residue em x) :
    NearestEven x em.roundedMantissa := by
  obtain ⟨f, hf, hf', hs, hx⟩ := h
  obtain ⟨m, r, s⟩ := em
  rw [hx]
  cases r <;> cases s
  · have hz : f = 0 := by simpa using hs
    simp [NearestEven, hz, ExtendedMantissa.roundedMantissa, ExtendedMantissa.accuracy,
      Accuracy.roundToNearestEven]
  · have hlt : |(m : K) - (m + 0 + f)| < 1 / 2 := by
      rw [abs_lt]
      constructor <;> linarith
    exact ⟨hlt.le, fun he => absurd he hlt.ne⟩
  · have hz : f = 0 := by simpa using hs
    refine ⟨?_, fun _ => ?_⟩
    · rcases Nat.mod_two_eq_zero_or_one m with hp | hp <;>
        norm_num [ExtendedMantissa.roundedMantissa, ExtendedMantissa.accuracy,
          Accuracy.roundToNearestEven, hp, hz]
    · change Even (m + m % 2)
      rw [Nat.even_iff]
      omega
  · have hpos : 0 < f := lt_of_le_of_ne hf (Ne.symm (by simpa using hs))
    have hlt : |((m + 1 : ℕ) : K) - (m + 1 / 2 + f)| < 1 / 2 := by
      push_cast
      rw [abs_lt]
      constructor <;> linarith
    exact ⟨hlt.le, fun he => absurd he hlt.ne⟩

theorem roundToNearestEven_mem (acc : Accuracy) (m : ℕ) :
    m ≤ acc.roundToNearestEven m ∧ acc.roundToNearestEven m ≤ m + 1 := by
  cases acc with
  | exact => exact ⟨le_rfl, Nat.le_succ m⟩
  | inexact o => cases o <;> simp only [Accuracy.roundToNearestEven] <;> omega

/-- A number whose exponent is the one that its format gives to its magnitude. -/
def Canonical (spec : Format) : UnpackedFloat → Prop
  | .finite _ m e _ => e = spec.targetExponent (totalExponent m e)
  | _ => True

/-- A rounded number, by its sign and its magnitude `n * 2 ^ t`. -/
inductive Shows (spec : Format) (sign : Sign) (n : ℕ) (t : ℤ) : UnpackedFloat → Prop
  | zero (hn : n = 0) : Shows spec sign n t (.zero sign)
  | finite {m : ℕ} {e : ℤ} (hm : 0 < m) (he : e = spec.targetExponent (totalExponent m e))
      (hv : m * 2 ^ (e - t).toNat = n) (ht : t ≤ e) : Shows spec sign n t (.finite sign m e hm)

/-- The exponent of the unit in the last place that belongs to the magnitude of `x`. -/
def Ulp (spec : Format) (x : K) (t : ℤ) : Prop :=
  spec.minExponent ≤ t ∧ |x| < 2 ^ (t + spec.mantissaBits) ∧
    (t = spec.minExponent ∨ 2 ^ (t + spec.mantissaBits - 1) ≤ |x|)

theorem two_le_mantissaBits (spec : Format) : 2 ≤ spec.mantissaBits := by
  have := spec.hm
  simp only [Format.mantissaBits]
  omega

theorem targetExponent_def (spec : Format) (m : ℕ) (e : ℤ) :
    spec.targetExponent (totalExponent m e) =
      max (m.log2 + 1 + e - spec.mantissaBits) spec.minExponent := rfl

theorem shiftToTargetExponent_eq (he : e ≤ spec.targetExponent (totalExponent m e)) :
    shiftToTargetExponent spec m e acc =
      (ExtendedMantissa.ofMantissaAndAccuracy m acc >>>
          (spec.targetExponent (totalExponent m e) - e).toNat,
        spec.targetExponent (totalExponent m e)) := by
  simp only [shiftToTargetExponent, shiftToExponent, Prod.mk.injEq, true_and]
  omega

theorem mantissa_ofMantissaAndAccuracy (m : ℕ) (acc : Accuracy) :
    (ExtendedMantissa.ofMantissaAndAccuracy m acc).mantissa = m := by
  cases acc with
  | exact => rfl
  | inexact o => cases o <;> rfl

/-- The significand after the first rounding has no more bits than the format, or just overflows. -/
theorem shifted_mem (acc : Accuracy) (he : e ≤ spec.targetExponent (totalExponent m e)) :
    let em := ExtendedMantissa.ofMantissaAndAccuracy m acc >>>
      (spec.targetExponent (totalExponent m e) - e).toNat
    em.roundedMantissa ≤ 2 ^ spec.mantissaBits ∧
      (spec.targetExponent (totalExponent m e) = spec.minExponent ∨
        2 ^ (spec.mantissaBits - 1) ≤ em.roundedMantissa) := by
  intro em
  have hmem := roundToNearestEven_mem em.accuracy em.mantissa
  have hem : em.mantissa = m / 2 ^ (spec.targetExponent (totalExponent m e) - e).toNat := by
    rw [mantissa_shiftRight, mantissa_ofMantissaAndAccuracy]
  change em.mantissa ≤ em.roundedMantissa ∧ em.roundedMantissa ≤ em.mantissa + 1 at hmem
  have ht := targetExponent_def spec m e
  have hbits := two_le_mantissaBits spec
  generalize hk : (spec.targetExponent (totalExponent m e) - e).toNat = k at hem
  constructor
  · have hlt : m < 2 ^ (spec.mantissaBits + k) :=
      Nat.lt_log2_self.trans_le (Nat.pow_le_pow_right two_pos (by omega))
    rw [pow_add, ← Nat.div_lt_iff_lt_mul (by positivity), ← hem] at hlt
    omega
  · by_cases hmin : spec.targetExponent (totalExponent m e) = spec.minExponent
    · exact Or.inl hmin
    · refine Or.inr (le_trans ?_ hmem.1)
      have hlog : m.log2 = spec.mantissaBits - 1 + k := by omega
      have hm : m ≠ 0 := by
        intro hz
        subst m
        simp only [Nat.log2_zero] at hlog ht
        omega
      rw [hem, Nat.le_div_iff_mul_le (by positivity), ← pow_add, ← hlog]
      exact Nat.log2_self_le hm

/-- What is left of a significand that has been rounded once, after it is shifted again. -/
def shifted (spec : Format) (sign : Sign) (n : ℕ) (t : ℤ) : UnpackedFloat :=
  let shift := shiftToTargetExponent spec n t .exact
  if h : shift.1.mantissa = 0 then .zero sign
  else .finite sign shift.1.mantissa shift.2 (Nat.pos_of_ne_zero h)

theorem targetExponent_of_lt (hn : n < 2 ^ spec.mantissaBits) (ht : spec.minExponent ≤ t)
    (hl : t = spec.minExponent ∨ 2 ^ (spec.mantissaBits - 1) ≤ n) :
    spec.targetExponent (totalExponent n t) = t := by
  have hbits := two_le_mantissaBits spec
  have hdef := targetExponent_def spec n t
  have hlog : n.log2 + 1 ≤ spec.mantissaBits := by
    by_cases hz : n = 0
    · rw [hz, Nat.log2_zero]
      omega
    · exact (Nat.log2_lt hz).mpr hn
  rcases hl with hl | hl
  · omega
  · have hz : n ≠ 0 := by
      have := Nat.two_pow_pos (spec.mantissaBits - 1)
      omega
    have := (Nat.le_log2 hz).mpr hl
    omega

/-- A significand that fits stays where it is. -/
theorem shows_of_lt (hn : n < 2 ^ spec.mantissaBits) (ht : spec.minExponent ≤ t)
    (hl : t = spec.minExponent ∨ 2 ^ (spec.mantissaBits - 1) ≤ n) :
    Shows spec sign n t (shifted spec sign n t) := by
  have heq := targetExponent_of_lt hn ht hl
  have hshift : shiftToTargetExponent spec n t .exact =
      (ExtendedMantissa.ofMantissaAndAccuracy n .exact, t) := by
    rw [shiftToTargetExponent_eq heq.ge, heq, Int.sub_self]
    rfl
  rw [shifted]
  simp only [hshift]
  change Shows spec sign n t (if h : n = 0 then .zero sign else .finite sign n t _)
  split
  · next hz => exact .zero hz
  · exact .finite _ heq.symm (by simp) le_rfl

/-- A significand that just overflows is halved. -/
theorem shows_of_eq (hn : n = 2 ^ spec.mantissaBits) (ht : spec.minExponent ≤ t) :
    Shows spec sign n t (shifted spec sign n t) := by
  have hbits := two_le_mantissaBits spec
  have hlog : n.log2 = spec.mantissaBits := by rw [hn, Nat.log2_two_pow]
  have hpos := Nat.two_pow_pos (spec.mantissaBits - 1)
  have hdiv : n / 2 = 2 ^ (spec.mantissaBits - 1) := by
    rw [hn, show spec.mantissaBits = spec.mantissaBits - 1 + 1 by omega, pow_succ]
    simp
  have htarget : spec.targetExponent (totalExponent n t) = t + 1 := by
    rw [targetExponent_def]
    omega
  have hmantissa : (shiftToTargetExponent spec n t .exact).1.mantissa = n / 2 := by
    rw [shiftToTargetExponent_eq (by omega), htarget, mantissa_shiftRight,
      mantissa_ofMantissaAndAccuracy]
    simp
  have hexp : (shiftToTargetExponent spec n t .exact).2 = t + 1 := by
    rw [shiftToTargetExponent_eq (by omega), htarget]
  rw [shifted]
  simp only [hmantissa, hexp]
  rw [dif_neg (by omega)]
  refine .finite _ ?_ ?_ (by omega)
  · rw [targetExponent_def, hdiv, Nat.log2_two_pow]
    omega
  · have hone : (t + 1 - t).toNat = 1 := by omega
    rw [hone, pow_one, hdiv, hn, ← pow_succ]
    congr 1
    omega

/-- Rounding gives the nearest multiple of the unit that belongs to the magnitude. -/
theorem roundWithAccuracy_shows (sign : Sign)
    (hx : Residue (.ofMantissaAndAccuracy m acc) (x / 2 ^ e))
    (he : e ≤ spec.targetExponent (totalExponent m e)) :
    ∃ n, NearestEven (x / 2 ^ spec.targetExponent (totalExponent m e)) n ∧
      Shows spec sign n (spec.targetExponent (totalExponent m e))
        (roundWithAccuracy spec sign m e acc) := by
  have hmem := shifted_mem acc he
  have hmin : spec.minExponent ≤ spec.targetExponent (totalExponent m e) := le_max_right _ _
  have hres := residue_shiftRight hx (spec.targetExponent (totalExponent m e) - e).toNat
  have hexp : x / 2 ^ e / 2 ^ (spec.targetExponent (totalExponent m e) - e).toNat =
      x / 2 ^ spec.targetExponent (totalExponent m e) := by
    rw [div_div, ← zpow_natCast, ← zpow_add₀ two_ne_zero]
    congr 2
    omega
  rw [hexp] at hres
  refine ⟨_, nearestEven_roundedMantissa hres, ?_⟩
  unfold roundWithAccuracy
  rw [shiftToTargetExponent_eq he]
  rcases hmem.1.lt_or_eq with hlt | heq
  · exact shows_of_lt hlt hmin hmem.2
  · exact shows_of_eq heq hmin

end Strapdown.Binary
