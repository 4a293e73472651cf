import Strapdown.Proofs.Decimal.Digits
import Strapdown.Proofs.Decimal.Narrowing

/-! A text laid out from digits is a literal of the same value. -/
namespace Strapdown.Decimal
open Float.Model (Format UnpackedFloat)
open Float.Model.UnpackedFloat

variable {w f cs rest : List Char} {sign : Sign} {k : ℤ} {n : ℕ} {c : Char} {style : Style}
variable {d : Digits}

theorem span_digits (hw : IsDigits w) (hr : ∀ c ∈ rest.head?, c.isDigit = false) :
    (w ++ rest).span Char.isDigit = (w, rest) := by
  rw [List.span_eq_takeWhile_dropWhile, List.takeWhile_append_of_pos hw,
    List.dropWhile_append_of_pos hw]
  cases rest with
  | nil => simp
  | cons c rest =>
    have hc : c.isDigit = false := hr c rfl
    simp [hc]

theorem splitSign_of_digit (hc : c.isDigit = true) : splitSign (c :: cs) = (false, c :: cs) := by
  rw [splitSign]
  · intro _ h
    cases h
    exact absurd hc (by decide)
  · intro _ h
    cases h
    exact absurd hc (by decide)

theorem splitSign_digits (hw : IsDigits w) (hne : w ≠ []) :
    splitSign (w ++ rest) = (false, w ++ rest) := by
  obtain ⟨c, w, rfl⟩ := List.exists_cons_of_ne_nil hne
  exact splitSign_of_digit (hw c List.mem_cons_self)

theorem splitSign_signText (sign : Sign) (hw : IsDigits w) (hne : w ≠ []) :
    splitSign (signText sign ++ (w ++ rest)) = (isNegative sign, w ++ rest) := by
  cases sign with
  | positive => exact splitSign_digits (w := w) hw hne
  | negative => rfl

theorem exponent?_nil : exponent? [] = some 0 := rfl

theorem exponent?_wholeChars (k : ℤ) : exponent? ('e' :: wholeChars k) = some k := by
  cases k with
  | ofNat n =>
    have hs : splitSign (Nat.toDigits 10 n ++ []) = (false, Nat.toDigits 10 n ++ []) :=
      splitSign_digits (isDigits_toDigits n) Nat.toDigits_ne_nil
    rw [List.append_nil] at hs
    simp [exponent?, wholeChars, hs, digitsValue?_toDigits]
  | negSucc n =>
    simp [exponent?, wholeChars, splitSign, digitsValue?_toDigits, Int.negSucc_eq]

namespace Literal

theorem parse?_point (sign : Sign) (hw : IsDigits w) (hf : IsDigits f) (hne : w ≠ [])
    (hk : exponent? rest = some k) (hr : ∀ c ∈ rest.head?, c.isDigit = false) :
    parse? (signText sign ++ (w ++ '.' :: (f ++ rest))) =
      some ⟨isNegative sign, Nat.ofDigitChars 10 (w ++ f) 0, k - f.length⟩ := by
  have hdot : ∀ c ∈ ('.' :: (f ++ rest)).head?, c.isDigit = false := by
    intro c hc
    rw [← Option.some.inj hc]
    rfl
  have hdigits := digitsValue?_eq (List.append_ne_nil_of_left_ne_nil hne f) (isDigits_append hw hf)
  rw [parse?, splitSign_signText sign hw hne]
  simp only [span_digits hw hdot, span_digits hf hr, hdigits, hk]
  rfl

theorem parse?_whole (sign : Sign) (hw : IsDigits w) (hne : w ≠ [])
    (hk : exponent? rest = some k) (hr : ∀ c ∈ rest.head?, c.isDigit = false ∧ c ≠ '.') :
    parse? (signText sign ++ (w ++ rest)) =
      some ⟨isNegative sign, Nat.ofDigitChars 10 w 0, k⟩ := by
  have hrest : ∀ c ∈ rest.head?, c.isDigit = false := fun c hc => (hr c hc).1
  have hdigits := digitsValue?_eq hne hw
  rw [parse?, splitSign_signText sign hw hne]
  simp only [span_digits hw hrest]
  cases rest with
  | nil => simp [hdigits, hk]
  | cons c rest =>
    have hdot : c ≠ '.' := (hr c rfl).2
    split
    · next heq =>
      cases heq
      exact absurd rfl hdot
    · simp [hdigits, hk]

end Literal

/-- A literal that stands for the value of digits around a point. -/
structure Stands (sign : Sign) (d : Digits) (l : Literal) : Prop where
  negative_eq : l.negative = isNegative sign
  value_eq : l.magnitude.value = d.value
  exponent_mem : l.magnitude.exponent = d.point - d.digits.length ∨
    l.magnitude.exponent = 0 ∨ l.magnitude.exponent = -1

/-- Zeros around digits move the point only. -/
theorem ofDigitChars_pad (cs : List Char) (j k : ℕ) :
    Nat.ofDigitChars 10 (zeros j ++ cs ++ zeros k) 0 = Nat.ofDigitChars 10 cs 0 * 10 ^ k := by
  rw [Nat.ofDigitChars_append, Nat.ofDigitChars_append, zeros, zeros,
    Nat.ofDigitChars_replicate_zero, Nat.ofDigitChars_replicate_zero, Nat.mul_zero, mul_comm]

theorem stands_of_eq {m : ℕ} {e : ℤ} (hm : m = Nat.ofDigitChars 10 d.digits 0)
    (he : e = d.point - d.digits.length) : Stands sign d ⟨isNegative sign, m, e⟩ :=
  ⟨rfl, by rw [hm, he]; rfl, Or.inl he⟩

theorem ofDigitChars_padded {j k : ℕ} (hcs : cs = zeros j ++ d.digits ++ zeros k) {e : ℤ}
    (he : e = d.point - d.digits.length - k) :
    (⟨Nat.ofDigitChars 10 cs 0, e⟩ : Decimal).value = d.value := by
  rw [Decimal.value, Digits.value, hcs, ofDigitChars_pad, he, Nat.cast_mul, mul_assoc]
  push_cast
  rw [← zpow_natCast, ← zpow_add₀ (by norm_num)]
  congr 2
  ring

/-- The literal of a text with an optional whole end. -/
theorem exists_literal_whole (sign : Sign) (hend : style.wholeEnd = [] ∨ style.wholeEnd = ['.', '0'])
    (hw : IsDigits d.digits) (hne : d.digits ≠ []) (hpoint : (d.digits.length : ℤ) ≤ d.point) :
    ∃ l, Literal.parse? (signText sign ++
        (d.digits ++ zeros (d.point.toNat - d.digits.length) ++ style.wholeEnd)) = some l ∧
      Stands sign d l := by
  have hdigits := isDigits_append hw (isDigits_zeros (d.point.toNat - d.digits.length))
  have hne' := List.append_ne_nil_of_left_ne_nil hne (zeros (d.point.toNat - d.digits.length))
  rcases hend with hend | hend
  · have hparse := Literal.parse?_whole sign hdigits hne' exponent?_nil (by simp)
    rw [hend, hparse]
    refine ⟨_, rfl, rfl, ofDigitChars_padded (j := 0) rfl ?_, Or.inr (Or.inl rfl)⟩
    omega
  · have hparse := Literal.parse?_point sign hdigits (isDigits_zeros 1) hne' exponent?_nil
      (by simp)
    rw [List.append_nil] at hparse
    rw [hend, show ['.', '0'] = '.' :: zeros 1 from rfl, hparse]
    refine ⟨_, rfl, rfl, ?_, Or.inr (Or.inr rfl)⟩
    refine ofDigitChars_padded (j := 0) (k := d.point.toNat - d.digits.length + 1) ?_ ?_
    · simp [zeros, List.replicate_succ']
    · simp [zeros]
      omega

theorem exists_literal_positional (sign : Sign)
    (hend : style.wholeEnd = [] ∨ style.wholeEnd = ['.', '0']) (hw : IsDigits d.digits)
    (hne : d.digits ≠ []) :
    ∃ l, Literal.parse? (signText sign ++ style.layPositional d) = some l ∧ Stands sign d l := by
  rw [Style.layPositional]
  split
  · next hpoint =>
    have hfraction := isDigits_append (isDigits_zeros (-d.point).toNat) hw
    have hparse := Literal.parse?_point sign (isDigits_zeros 1) hfraction (by simp [zeros])
      exponent?_nil (by simp)
    rw [List.append_nil] at hparse
    refine ⟨_, hparse, stands_of_eq ?_ ?_⟩
    · have hpad := ofDigitChars_pad d.digits (1 + (-d.point).toNat) 0
      rw [pow_zero, mul_one] at hpad
      rw [← hpad, zeros, zeros, zeros, zeros, List.replicate_zero, List.append_nil,
        ← List.append_assoc, ← List.replicate_add]
    · rw [List.length_append, zeros, List.length_replicate]
      push_cast
      omega
  · split
    · next hlow hhigh =>
      obtain ⟨htake, hdrop⟩ := isDigits_of_append
        ((List.take_append_drop d.point.toNat d.digits).symm ▸ hw)
      have hparse := Literal.parse?_point sign htake hdrop ?_ exponent?_nil (by simp)
      · rw [List.append_nil] at hparse
        refine ⟨_, hparse, stands_of_eq ?_ ?_⟩
        · rw [List.take_append_drop]
        · rw [List.length_drop]
          omega
      · rw [ne_eq, List.take_eq_nil_iff, not_or]
        exact ⟨by omega, hne⟩
    · next hlow hhigh =>
      exact exists_literal_whole sign hend hw hne (by omega)

theorem exists_literal_scientific (sign : Sign) (hw : IsDigits d.digits) (hne : d.digits ≠ []) :
    ∃ l, Literal.parse? (signText sign ++ Style.layScientific d) = some l ∧ Stands sign d l := by
  obtain ⟨c, cs, hcs⟩ := List.exists_cons_of_ne_nil hne
  have hc : IsDigits [c] := by
    intro _ h
    rw [List.mem_singleton.mp h]
    exact hw c (hcs ▸ List.mem_cons_self)
  have htail : IsDigits cs := fun x hx => hw x (hcs ▸ List.mem_cons_of_mem c hx)
  have hk := exponent?_wholeChars (d.point - 1)
  cases cs with
  | nil =>
    have htext : Style.layScientific d = [c] ++ 'e' :: wholeChars (d.point - 1) := by
      rw [Style.layScientific, hcs]
      rfl
    have hparse := Literal.parse?_whole sign hc (by simp) hk (by simp)
    rw [htext, hparse]
    refine ⟨_, rfl, stands_of_eq ?_ ?_⟩
    · rw [hcs]
    · rw [hcs]
      rfl
  | cons c' cs =>
    have htext : Style.layScientific d =
        [c] ++ '.' :: ((c' :: cs) ++ 'e' :: wholeChars (d.point - 1)) := by
      rw [Style.layScientific, hcs]
      rfl
    have hparse := Literal.parse?_point sign hc htail (by simp) hk (by simp)
    rw [htext, hparse]
    refine ⟨_, rfl, stands_of_eq ?_ ?_⟩
    · rw [hcs]
      rfl
    · rw [hcs]
      push_cast [List.length_cons]
      ring

/-- What is laid out from digits is a literal. -/
theorem exists_literal (style : Style) (sign : Sign)
    (hend : style.wholeEnd = [] ∨ style.wholeEnd = ['.', '0']) (hw : IsDigits d.digits) (hne : d.digits ≠ []) :
    ∃ l, Literal.parse? (signText sign ++ style.lay d) = some l ∧ Stands sign d l := by
  rw [Style.lay]
  split
  · exact exists_literal_positional sign hend hw hne
  · exact exists_literal_scientific sign hw hne

/-- The characters that numbers are written with. -/
def IsNumeral (c : Char) : Prop := c.isDigit = true ∨ c = '.' ∨ c = 'e' ∨ c = '-'

theorem isNumeral_digits (hw : IsDigits w) (hc : c ∈ w) : IsNumeral c := Or.inl (hw c hc)

theorem isNumeral_wholeChars (hc : c ∈ wholeChars k) : IsNumeral c := by
  cases k with
  | ofNat n => exact isNumeral_digits (isDigits_toDigits n) hc
  | negSucc n =>
    rcases List.mem_cons.mp hc with rfl | hc
    · exact Or.inr (Or.inr (Or.inr rfl))
    · exact isNumeral_digits (isDigits_toDigits (n + 1)) hc

theorem isNumeral_lay (hend : style.wholeEnd = [] ∨ style.wholeEnd = ['.', '0'])
    (hw : IsDigits d.digits) : ∀ c ∈ style.lay d, IsNumeral c := by
  have hdot : IsNumeral '.' := Or.inr (Or.inl rfl)
  have hzeros (n : ℕ) : ∀ c ∈ zeros n, IsNumeral c := fun _ => isNumeral_digits (isDigits_zeros n)
  have hdigits : ∀ c ∈ d.digits, IsNumeral c := fun _ => isNumeral_digits hw
  have htake (n : ℕ) : ∀ c ∈ d.digits.take n, IsNumeral c := fun c hc =>
    hdigits c (List.mem_of_mem_take hc)
  have hdrop (n : ℕ) : ∀ c ∈ d.digits.drop n, IsNumeral c := fun c hc =>
    hdigits c (List.mem_of_mem_drop hc)
  have hpoint : ∀ c ∈ '.' :: d.digits.drop 1, IsNumeral c :=
    List.forall_mem_cons.mpr ⟨hdot, hdrop 1⟩
  have hwhole : ∀ c ∈ style.wholeEnd, IsNumeral c := by
    rcases hend with hend | hend <;> rw [hend]
    · simp
    · exact List.forall_mem_cons.mpr ⟨hdot, hzeros 1⟩
  have hpower : ∀ c ∈ 'e' :: wholeChars (d.point - 1), IsNumeral c :=
    List.forall_mem_cons.mpr ⟨Or.inr (Or.inr (Or.inl rfl)), fun _ => isNumeral_wholeChars⟩
  rw [Style.lay]
  split
  · rw [Style.layPositional]
    split
    · simp only [List.cons_append, List.forall_mem_cons, List.forall_mem_append]
      exact ⟨hzeros 1 '0' (by simp [zeros]), hdot, hzeros _, hdigits⟩
    · split
      · simp only [List.forall_mem_append, List.forall_mem_cons]
        exact ⟨htake _, hdot, hdrop _⟩
      · simp only [List.forall_mem_append]
        exact ⟨⟨hdigits, hzeros _⟩, hwhole⟩
  · simp only [Style.layScientific, List.forall_mem_append]
    refine ⟨⟨htake 1, ?_⟩, hpower⟩
    split
    · simp
    · exact hpoint

/-- What is laid out starts with a digit. -/
theorem exists_digit_lay (style : Style) (hw : IsDigits d.digits) (hne : d.digits ≠ []) :
    ∃ c cs, style.lay d = c :: cs ∧ c.isDigit = true := by
  obtain ⟨c, cs, hcs⟩ := List.exists_cons_of_ne_nil hne
  have hc : c.isDigit = true := hw c (hcs ▸ List.mem_cons_self)
  rw [Style.lay]
  split
  · rw [Style.layPositional]
    split
    · exact ⟨_, _, rfl, rfl⟩
    · split
      · obtain ⟨k, hk⟩ : ∃ k, d.point.toNat = k + 1 := ⟨d.point.toNat - 1, by omega⟩
        rw [hcs, hk]
        exact ⟨_, _, rfl, hc⟩
      · rw [hcs]
        exact ⟨_, _, rfl, hc⟩
  · rw [Style.layScientific, hcs]
    exact ⟨_, _, rfl, hc⟩

end Strapdown.Decimal
