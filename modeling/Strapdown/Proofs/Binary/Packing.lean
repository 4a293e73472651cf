import Strapdown.Proofs.Binary.Rounding

/-! Packing a canonical number and unpacking it again changes nothing, unless it is too large. -/
namespace Strapdown.Binary
open Float.Model (Format UnpackedFloat totalExponent)
open Float.Model.UnpackedFloat

variable {spec : Format} {sign : Sign} {m : ℕ} {e : ℤ}

/-- The exponent of the largest numbers of a format. -/
def maxExponent (spec : Format) : ℤ := spec.exponentBias - spec.mantissaBitsWithoutImplicit

theorem minExponent_eq (spec : Format) :
    spec.minExponent = 1 - spec.exponentBias - spec.mantissaBitsWithoutImplicit := by
  have hpos := Nat.two_pow_pos (spec.exponentBits - 1)
  have hcast : ((2 ^ (spec.exponentBits - 1) : ℕ) : ℤ) = 2 ^ (spec.exponentBits - 1) :=
    Nat.cast_pow 2 _
  simp only [Format.minExponent, Format.exponentBias, Format.mantissaBits]
  omega

theorem two_pow_exponentBits (spec : Format) :
    2 ^ spec.exponentBits = 2 * spec.exponentBias + 2 := by
  have he := spec.he
  have hp := Nat.two_pow_pos (spec.exponentBits - 1)
  have hs : 2 ^ spec.exponentBits = 2 ^ (spec.exponentBits - 1) * 2 := by
    rw [← pow_succ]
    congr 1
    omega
  simp only [Format.exponentBias]
  omega

theorem one_le_exponentBias (hs : 2 ≤ spec.exponentBits) : 1 ≤ spec.exponentBias := by
  have hp : 2 ^ 1 ≤ 2 ^ (spec.exponentBits - 1) := Nat.pow_le_pow_right two_pos (by omega)
  simp only [Format.exponentBias]
  omega

theorem unpack_packedInfinity (spec : Format) (sign : Sign) :
    unpack spec (packedInfinity spec sign) = .infinity sign := by
  simp [unpack, packedInfinity]

/-- The significand of a normal number, from its stored part. -/
theorem toNat_implicit (b : BitVec spec.mantissaBitsWithoutImplicit) :
    (1#1 ++ b).toNat = 2 ^ spec.mantissaBitsWithoutImplicit + b.toNat := by
  rw [BitVec.toNat_append, ← Nat.shiftLeft_add_eq_or_of_lt b.isLt, Nat.shiftLeft_eq]
  simp

theorem log2_implicit (b : BitVec spec.mantissaBitsWithoutImplicit) :
    (1#1 ++ b).toNat.log2 = spec.mantissaBitsWithoutImplicit := by
  rw [toNat_implicit, Nat.log2_eq_iff (by positivity), pow_succ]
  have := b.isLt
  omega

/-- What a number becomes when it is stored in a format. -/
def store (spec : Format) (r : UnpackedFloat) : UnpackedFloat := unpack spec (pack spec r)

/-- A number that a format can hold. -/
structure Fits (spec : Format) (r : UnpackedFloat) : Prop where
  canonical : Canonical spec r
  bounded : ∀ sign m e hm, r = .finite sign m e hm → e ≤ maxExponent spec

theorem ofNat_ne_zero {n k : ℕ} (hk : 0 < k) (hlt : k < 2 ^ n) : BitVec.ofNat n k ≠ 0#_ := by
  intro h
  have h' := congrArg BitVec.toNat h
  simp only [BitVec.toNat_ofNat, Nat.mod_eq_of_lt hlt, Nat.zero_mod] at h'
  omega

theorem ofNat_ne_neg_one {n k : ℕ} (hlt : k + 1 < 2 ^ n) : BitVec.ofNat n k ≠ -1#_ := by
  intro h
  have h' := congrArg BitVec.toNat h
  rw [BitVec.toNat_ofNat, Nat.mod_eq_of_lt (by omega), BitVec.neg_one_eq_allOnes,
    BitVec.toNat_allOnes] at h'
  omega

/-- A full significand is stored without its first bit. -/
theorem unpack_normal {biased : ℕ} (hm : 0 < m) (hfull : m.log2 + 1 = spec.mantissaBits)
    (hpos : 0 < biased) (hlt : biased + 1 < 2 ^ spec.exponentBits)
    (he : e = biased - (spec.exponentBias + spec.mantissaBitsWithoutImplicit)) :
    unpack spec (packComponents spec sign (.ofNat spec.exponentBits biased)
      (.ofNat spec.mantissaBitsWithoutImplicit m)) = .finite sign m e hm := by
  have hbits : spec.mantissaBits = 1 + spec.mantissaBitsWithoutImplicit := rfl
  have hle : 2 ^ spec.mantissaBitsWithoutImplicit ≤ m := (Nat.le_log2 hm.ne').mp (by omega)
  have hlog : m < 2 ^ spec.mantissaBitsWithoutImplicit * 2 := by
    rw [← pow_succ]
    exact Nat.lt_log2_self.trans_eq (by congr 1; omega)
  have hmod : m % 2 ^ spec.mantissaBitsWithoutImplicit =
      m - 2 ^ spec.mantissaBitsWithoutImplicit := by
    rw [Nat.mod_eq_sub_mod hle, Nat.mod_eq_of_lt (by omega)]
  have hcap : biased < 2 ^ spec.exponentBits := by omega
  have hbiased : (BitVec.ofNat spec.exponentBits biased).toNat = biased := by
    rw [BitVec.toNat_ofNat, Nat.mod_eq_of_lt hcap]
  simp only [unpack, unpackExponent_packComponents, unpackMantissa_packComponents,
    unpackSign_packComponents, Sign.ofBitVec_toBitVec, if_neg (ofNat_ne_neg_one hlt),
    if_neg (ofNat_ne_zero hpos hcap), hbiased, toNat_implicit, BitVec.toNat_ofNat, hmod]
  congr 1 <;> omega

/-- A short significand is stored as it is, with the least exponent. -/
theorem unpack_subnormal (hm : 0 < m) (hshort : m.log2 + 1 < spec.mantissaBits)
    (he : e = spec.minExponent) : unpack spec (packComponents spec sign (.ofNat _ 0)
      (.ofNat spec.mantissaBitsWithoutImplicit m)) = .finite sign m e hm := by
  have hmin := minExponent_eq spec
  have hbits : spec.mantissaBits = 1 + spec.mantissaBitsWithoutImplicit := rfl
  have hlt : m < 2 ^ spec.mantissaBitsWithoutImplicit :=
    Nat.lt_log2_self.trans_le (Nat.pow_le_pow_right two_pos (by omega))
  have hcap : 0 + 1 < 2 ^ spec.exponentBits := Nat.one_lt_two_pow spec.he.ne'
  simp only [unpack, unpackExponent_packComponents, unpackMantissa_packComponents,
    unpackSign_packComponents, Sign.ofBitVec_toBitVec, if_neg (ofNat_ne_neg_one hcap),
    dif_neg (ofNat_ne_zero hm hlt), BitVec.toNat_ofNat, Nat.mod_eq_of_lt hlt, ↓reduceIte]
  congr 1
  simp only [Nat.zero_mod]
  omega

theorem store_finite (hm : 0 < m) (hc : Canonical spec (.finite sign m e hm))
    (he : e ≤ maxExponent spec) : store spec (.finite sign m e hm) = .finite sign m e hm := by
  have hmin := minExponent_eq spec
  have hdef : e = _ := hc
  rw [targetExponent_def] at hdef
  have hcap := two_pow_exponentBits spec
  unfold maxExponent at he
  generalize hb : (e + spec.exponentBias + spec.mantissaBitsWithoutImplicit).toNat = biased
  have hfit : ¬ 2 ^ spec.exponentBits ≤ biased + 1 := by omega
  simp only [store, pack, hb, if_neg hfit]
  split
  · next hfull => exact unpack_normal hm hfull (by omega) (by omega) (by omega)
  · next hshort => exact unpack_subnormal hm (by omega) (by omega)

theorem store_overflow (hm : 0 < m) (he : maxExponent spec < e) :
    store spec (.finite sign m e hm) = .infinity sign := by
  have hcap := two_pow_exponentBits spec
  unfold maxExponent at he
  simp only [store, pack]
  rw [if_pos (by omega), unpack_packedInfinity]

theorem store_of_fits {r : UnpackedFloat} (hr : Fits spec r) : store spec r = r := by
  cases r with
  | infinity sign => exact unpack_packedInfinity spec sign
  | notANumber => exact unpack_packedNaN
  | zero sign => exact unpack_packedZero
  | finite sign m e hm => exact store_finite hm hr.canonical (hr.bounded _ _ _ _ rfl)

/-- The three ways in which the exponent bits of a number are read. -/
theorem unpack_cases (b : BitVec spec.numBits) :
    (unpackExponent b = -1#_ ∧ unpack spec b = if unpackMantissa b = 0#_ then
        .infinity (.ofBitVec (unpackSign b)) else .notANumber) ∨
      (unpackExponent b = 0#_ ∧ unpackMantissa b = 0#_ ∧
        unpack spec b = .zero (.ofBitVec (unpackSign b))) ∨
      (unpackExponent b = 0#_ ∧ ∃ hm, unpack spec b = .finite (.ofBitVec (unpackSign b))
        (unpackMantissa b).toNat spec.minExponent hm) ∨
      (unpackExponent b ≠ 0#_ ∧ unpackExponent b ≠ -1#_ ∧ ∃ hm, unpack spec b =
        .finite (.ofBitVec (unpackSign b)) (1#1 ++ unpackMantissa b).toNat
          ((unpackExponent b).toNat - (spec.exponentBias + spec.mantissaBitsWithoutImplicit))
          hm) := by
  have hmin := minExponent_eq spec
  unfold unpack
  by_cases hinf : unpackExponent b = -1#_
  · exact Or.inl ⟨hinf, by simp only [hinf, ↓reduceIte]⟩
  by_cases hz : unpackExponent b = 0#_
  · by_cases hm : unpackMantissa b = 0#_
    · exact Or.inr (Or.inl ⟨hz, hm, by simp only [if_neg hinf, if_pos hz, dif_pos hm]⟩)
    · refine Or.inr (Or.inr (Or.inl ⟨hz, ?_, ?_⟩))
      · simpa [BitVec.toNat_pos, BitVec.pos_iff_ne_zero] using hm
      · simp only [hinf, hm, ↓reduceIte, ↓reduceDIte, if_pos hz]
        congr 1
        rw [hz, BitVec.toNat_zero]
        omega
  · exact Or.inr (Or.inr (Or.inr ⟨hz, hinf, by simp, by simp only [hinf, hz, ↓reduceIte]⟩))

@[simp] theorem store_infinity (spec : Format) (sign : Sign) :
    store spec (.infinity sign) = .infinity sign :=
  store_of_fits ⟨trivial, fun _ _ _ _ h => by cases h⟩

@[simp] theorem store_notANumber (spec : Format) : store spec .notANumber = .notANumber :=
  store_of_fits ⟨trivial, fun _ _ _ _ h => by cases h⟩

@[simp] theorem store_zero (spec : Format) (sign : Sign) :
    store spec (.zero sign) = .zero sign :=
  store_of_fits ⟨trivial, fun _ _ _ _ h => by cases h⟩

theorem fits_subnormal (hs : 2 ≤ spec.exponentBits) (hm : 0 < m)
    (hlt : m < 2 ^ spec.mantissaBitsWithoutImplicit) :
    Fits spec (.finite sign m spec.minExponent hm) := by
  have hmin := minExponent_eq spec
  have hbias := one_le_exponentBias hs
  have hbits : spec.mantissaBits = 1 + spec.mantissaBitsWithoutImplicit := rfl
  have hlog := (Nat.log2_lt hm.ne').mpr hlt
  refine ⟨?_, ?_⟩
  · rw [Canonical, targetExponent_def]
    omega
  · intro _ _ _ _ h
    simp only [UnpackedFloat.finite.injEq] at h
    unfold maxExponent
    omega

theorem fits_normal {biased : ℕ} (hm : 0 < m) (hlog : m.log2 = spec.mantissaBitsWithoutImplicit)
    (hpos : 0 < biased) (hlt : biased + 1 < 2 ^ spec.exponentBits) :
    Fits spec (.finite sign m
      (biased - (spec.exponentBias + spec.mantissaBitsWithoutImplicit)) hm) := by
  have hmin := minExponent_eq spec
  have hcap := two_pow_exponentBits spec
  have hbits : spec.mantissaBits = 1 + spec.mantissaBitsWithoutImplicit := rfl
  refine ⟨?_, ?_⟩
  · rw [Canonical, targetExponent_def, hlog]
    omega
  · intro _ _ _ _ h
    simp only [UnpackedFloat.finite.injEq] at h
    unfold maxExponent
    omega

theorem fits_unpack (b : BitVec spec.numBits) (hs : 2 ≤ spec.exponentBits) :
    Fits spec (unpack spec b) := by
  rcases unpack_cases b with ⟨-, h⟩ | ⟨-, -, h⟩ | ⟨-, hm, h⟩ | ⟨hz, hn, hm, h⟩
  · rw [h]
    split <;> exact ⟨trivial, fun _ _ _ _ h => by simp at h⟩
  · rw [h]
    exact ⟨trivial, fun _ _ _ _ h => by simp at h⟩
  · rw [h]
    exact fits_subnormal hs hm (unpackMantissa b).isLt
  · have hlt := (unpackExponent b).isLt
    have hpos : 0 < (unpackExponent b).toNat := by
      rw [BitVec.toNat_pos, BitVec.pos_iff_ne_zero]
      exact hz
    have hmax : (unpackExponent b).toNat ≠ 2 ^ spec.exponentBits - 1 := by
      intro h
      apply hn
      apply BitVec.eq_of_toNat_eq
      simpa [BitVec.neg_one_eq_allOnes] using h
    rw [h]
    exact fits_normal hm (log2_implicit _) hpos (by omega)

end Strapdown.Binary
