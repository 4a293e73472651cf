import Strapdown.Proofs.Decimal.Literals
import Strapdown.Proofs.Decimal.Reread
import Strapdown.Yaml.Block
import Strapdown.Yaml.Meaning

/-! Numbers in a document are read as they were written. -/
namespace Strapdown.Yaml
open Float.Model (Format UnpackedFloat)
open Float.Model.UnpackedFloat
open Strapdown.Binary Strapdown.Decimal
open Block (numberStyle)

variable {sign : Sign} {m : ℕ} {e : ℤ} {hm : 0 < m} {cs : List Char}

/-- The number that the text of a number is read as: its own, but for one magnitude. -/
def settled (x : Float32) : Float32 :=
  if x.toBits = 0x15ae43fd then .ofBits 0x15ae43fe
  else if x.toBits = 0x95ae43fd then .ofBits 0x95ae43fe
  else x

theorem settled_eq_self_iff {x : Float32} :
    settled x = x ↔ x.toBits ≠ 0x15ae43fd ∧ x.toBits ≠ 0x95ae43fd := by
  rw [settled]
  split_ifs with hpos hneg
  · refine ⟨?_, fun h => absurd hpos h.1⟩
    rintro rfl
    exact absurd hpos (by decide +kernel)
  · refine ⟨?_, fun h => absurd hneg h.2⟩
    rintro rfl
    exact absurd hneg (by decide +kernel)
  · exact ⟨fun _ => ⟨hpos, hneg⟩, fun _ => rfl⟩

/-- A literal that begins with a digit or a minus sign is read as a number. -/
theorem number?_of_literal {l : Literal} (hl : Literal.parse? cs = some l)
    (hplus : cs.head? ≠ some '+') (hf : l.toBinary64.isFinite = true) :
    Scalar.number? (String.ofList cs) = some l.toBinary64 := by
  have hnot (s : String) (hs : Literal.parse? s.toList = none) : String.ofList cs ≠ s := by
    rintro rfl
    rw [String.toList_ofList, hl] at hs
    cases hs
  have hinf : [".inf", ".Inf", ".INF"].contains (String.ofList cs) = false := by
    simp [hnot ".inf" (by decide), hnot ".Inf" (by decide), hnot ".INF" (by decide)]
  have hneg : ["-.inf", "-.Inf", "-.INF"].contains (String.ofList cs) = false := by
    simp [hnot "-.inf" (by decide), hnot "-.Inf" (by decide), hnot "-.INF" (by decide)]
  have hnan : [".nan", ".NaN", ".NAN"].contains (String.ofList cs) = false := by
    simp [hnot ".nan" (by decide), hnot ".NaN" (by decide), hnot ".NAN" (by decide)]
  simp only [Scalar.number?, String.toList_ofList, if_neg hplus, hinf, hneg, hnan, hl, hf]
  simp [hplus]

/-- The literal of a finite number. -/
theorem exists_literal_chars (hf : Fits .binary32 (.finite sign m e hm)) :
    ∃ l, Literal.parse? (numberStyle.chars .binary32 (.finite sign m e hm)) = some l ∧
      l.toBinary64 = reread sign m e := by
  obtain ⟨n, hn, hn17, hbeside, -⟩ := (targetIn .binary32 m e).shortest_spec .even
  obtain ⟨hpos, hsig, -⟩ := Target.beside_bounds hm hn hbeside
  obtain ⟨hleast, hgreatest⟩ := magnitude_bounds hf
  have hexp := hbeside.exponent_eq
  rw [Target.maxDigits] at hn17
  rw [Style.chars, reread]
  change ∃ l, Literal.parse? (signText sign ++
    numberStyle.lay (toDigits ((targetIn .binary32 m e).shortest .even))) = some l ∧ _
  generalize (targetIn .binary32 m e).shortest .even = d at *
  obtain ⟨hne, k, hk⟩ := digits_toDigits d hpos
  have hw := (isDigits_of_append (hk ▸ isDigits_toDigits d.significand)).1
  obtain ⟨l, hl, hs⟩ := exists_literal numberStyle sign (Or.inr rfl) hw hne
  obtain ⟨j, hj, hpoint⟩ := exists_exponent_eq d
  have hvalue := hs.value_eq.trans (value_toDigits d)
  have hlength : (Nat.toDigits 10 d.significand).length ≤ n + 1 := by
    rw [Nat.length_toDigits_le_iff (by decide) (Nat.succ_pos n)]
    exact hsig.trans_lt (Nat.pow_lt_pow_right (by decide) (Nat.lt_succ_self n))
  have hsig' : 0 < l.magnitude.significand := by
    rw [← Decimal.value_pos_iff, hvalue, Decimal.value_pos_iff]
    exact hpos
  have hexp' := hs.exponent_mem
  rw [hpoint] at hexp'
  refine ⟨l, hl, toBinary64_congr hs.negative_eq hvalue hsig' hpos ?_ ?_⟩
  · rw [abs_le]
    omega
  · rw [abs_le]
    simp only
    omega

theorem settled_exception (sign : Sign) :
    settled (toFloat32 (.finite sign 11420669 (-107) (by decide))) =
      toFloat32 (.finite sign 11420670 (-107) (by decide)) := by
  cases sign <;> decide +kernel

theorem settled_of_ne {x : Float32} (hx : ofFloat32 x = .finite sign m e hm)
    (hne : ¬ (m = 11420669 ∧ e = -107)) : settled x = x := by
  have hbits (b : UInt32) (s : Sign) (h : x.toBits = b)
      (hb : UnpackedFloat.unpack .binary32 b.toBitVec = .finite s 11420669 (-107) (by decide)) :
      False := by
    rw [ofFloat32, h, hb, UnpackedFloat.finite.injEq] at hx
    exact hne ⟨hx.2.1.symm, hx.2.2.symm⟩
  rw [settled, if_neg fun h => hbits _ .positive h rfl, if_neg fun h => hbits _ .negative h rfl]

/-- A finite number is written with its sign, a digit, and more of the characters of numbers. -/
theorem chars_finite (style : Decimal.Style)
    (hend : style.wholeEnd = [] ∨ style.wholeEnd = ['.', '0']) (sign : Sign) (e : ℤ) (hm : 0 < m) :
    ∃ c cs, style.chars .binary32 (.finite sign m e hm) = signText sign ++ c :: cs ∧
      c.isDigit = true ∧ ∀ x ∈ c :: cs, IsNumeral x := by
  obtain ⟨n, hn, -, hbeside, -⟩ := (targetIn .binary32 m e).shortest_spec style.tie
  obtain ⟨hpos, -, -⟩ := Target.beside_bounds hm hn hbeside
  obtain ⟨hne, k, hk⟩ := digits_toDigits _ hpos
  have hw := (isDigits_of_append (hk ▸ isDigits_toDigits _)).1
  obtain ⟨c, cs, hcs, hc⟩ := exists_digit_lay style hw hne
  refine ⟨c, cs, ?_, hc, hcs ▸ isNumeral_lay hend hw⟩
  rw [Style.chars, hcs]

theorem head?_chars (sign : Sign) (e : ℤ) (hm : 0 < m) :
    (numberStyle.chars .binary32 (.finite sign m e hm)).head? ≠ some '+' := by
  obtain ⟨c, cs, hcs, hc, -⟩ := chars_finite numberStyle (Or.inr rfl) sign e hm
  rw [hcs]
  cases sign with
  | positive =>
    rintro h
    cases h
    exact absurd hc (by decide)
  | negative => exact (by decide : some '-' ≠ some '+')

/-- A written number is read as the number, rounded twice on the way. -/
theorem number?_write (x : Float32) :
    ∃ y, Scalar.number? (numberStyle.write x) = some y ∧ narrow y = settled x := by
  have hfits := fits_ofFloat32 x
  have hself := toFloat32_ofFloat32 x
  rw [Style.write]
  cases hx : ofFloat32 x with
  | notANumber =>
    rw [hx] at hself
    subst hself
    exact ⟨.notANumber, rfl, by decide +kernel⟩
  | infinity sign =>
    rw [hx] at hself
    subst hself
    cases sign
    · exact ⟨.infinity .negative, rfl, by decide +kernel⟩
    · exact ⟨.infinity .positive, rfl, by decide +kernel⟩
  | zero sign =>
    rw [hx] at hself
    subst hself
    cases sign
    · exact ⟨.zero .negative, rfl, by decide +kernel⟩
    · exact ⟨.zero .positive, rfl, by decide +kernel⟩
  | finite sign m e hm =>
    rw [hx] at hself hfits
    obtain ⟨l, hl, hread⟩ := exists_literal_chars hfits
    by_cases hne : m = 11420669 ∧ e = -107
    · obtain ⟨rfl, rfl⟩ := hne
      obtain ⟨hfinite, hnarrow⟩ := reread_exception sign
      rw [← hread] at hfinite hnarrow
      refine ⟨_, number?_of_literal hl (head?_chars sign _ hm) hfinite, ?_⟩
      rw [hnarrow, ← hself, settled_exception]
    · obtain ⟨hfinite, hnarrow⟩ := survives hfits hne
      rw [← hread] at hfinite hnarrow
      refine ⟨_, number?_of_literal hl (head?_chars sign e hm) hfinite, ?_⟩
      rw [hnarrow, hself, settled_of_ne hx hne]

end Strapdown.Yaml
