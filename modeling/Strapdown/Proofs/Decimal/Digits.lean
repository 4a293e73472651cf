import Strapdown.Decimal.Literal
import Strapdown.Decimal.Style
import Mathlib

/-! Digits that are written for a number have that number as their value. -/
namespace Strapdown.Decimal

variable {cs ds : List Char} {n : ℕ}

/-- A text of digits and nothing else. -/
def IsDigits (cs : List Char) : Prop := ∀ c ∈ cs, c.isDigit = true

theorem isDigits_append (h : IsDigits cs) (h' : IsDigits ds) : IsDigits (cs ++ ds) := by
  intro c hc
  rcases List.mem_append.mp hc with hc | hc
  · exact h c hc
  · exact h' c hc

theorem isDigits_toDigits (n : ℕ) : IsDigits (Nat.toDigits 10 n) := fun _ hc =>
  Nat.isDigit_of_mem_toDigits (by decide) (by decide) hc

theorem isDigits_zeros (n : ℕ) : IsDigits (zeros n) := by
  intro c hc
  rw [List.eq_of_mem_replicate hc]
  rfl

theorem isDigits_of_append (h : IsDigits (cs ++ ds)) : IsDigits cs ∧ IsDigits ds :=
  ⟨fun c hc => h c (List.mem_append_left _ hc), fun c hc => h c (List.mem_append_right _ hc)⟩

theorem digitOf?_of_isDigit {c : Char} (h : c.isDigit = true) :
    digitsValue?.digitOf? c = some (c.toNat - 48) ∧ c.toNat - 48 < 10 := by
  have hc : '0' ≤ c ∧ c ≤ '9' := by simpa [Char.isDigit, Char.le_def] using h
  obtain ⟨hlow, hhigh⟩ := Char.isDigit_iff_toNat.mp h
  refine ⟨?_, ?_⟩
  · rw [digitsValue?.digitOf?, if_pos hc]
    rfl
  · change c.toNat ≤ 57 at hhigh
    omega

theorem digitsValue?_eq (hne : cs ≠ []) (h : IsDigits cs) :
    digitsValue? 10 cs = some (Nat.ofDigitChars 10 cs 0) := by
  have hfold : ∀ n, cs.foldlM (fun n c => (digitsValue?.digitOf? c).bind fun d =>
      if d < 10 then some (10 * n + d) else none) n = some (Nat.ofDigitChars 10 cs n) := by
    clear hne
    induction cs with
    | nil => intro n; rw [Nat.ofDigitChars_nil]; rfl
    | cons c cs ih =>
      intro n
      obtain ⟨hc, hlt⟩ := digitOf?_of_isDigit (h c List.mem_cons_self)
      rw [List.foldlM_cons, hc, Nat.ofDigitChars_cons]
      simp only [Option.bind_some, if_pos hlt]
      exact ih (fun d hd => h d (List.mem_cons_of_mem c hd)) _
  rw [digitsValue?, if_neg (by simpa using hne)]
  exact hfold 0

theorem digitsValue?_toDigits (n : ℕ) : digitsValue? 10 (Nat.toDigits 10 n) = some n := by
  rw [digitsValue?_eq Nat.toDigits_ne_nil (isDigits_toDigits n), Nat.ofDigitChars_ten_toDigits]

/-- The first digit of a positive number is not zero. -/
theorem head?_toDigits (hn : 0 < n) : (Nat.toDigits 10 n).head? ≠ some '0' := by
  induction n using Nat.strongRecOn with
  | ind n ih =>
    rw [Nat.toDigits_eq_if (by decide)]
    split
    · simpa using hn.ne'
    · next hge =>
      rw [List.head?_append_of_ne_nil _ Nat.toDigits_ne_nil]
      exact ih (n / 10) (by omega) (by omega)

/-- The exact value of a decimal. -/
def value (d : Decimal) : ℚ := d.significand * 10 ^ d.exponent

namespace Digits

/-- The value of digits around a point. -/
def value (d : Digits) : ℚ := Nat.ofDigitChars 10 d.digits 0 * 10 ^ (d.point - d.digits.length)

end Digits

/-- Without the zeros at its end, a text of digits is the same up to zeros. -/
theorem exists_zeros (cs : List Char) : ∃ k, cs = cs.rdropWhile (· = '0') ++ zeros k := by
  have htake : ∀ c ∈ cs.rtakeWhile (· = '0'), c = '0' := by
    intro c hc
    simpa using List.mem_rtakeWhile_imp hc
  refine ⟨(cs.rtakeWhile (· = '0')).length, ?_⟩
  rw [zeros, ← List.eq_replicate_iff.mpr ⟨rfl, htake⟩, List.rdropWhile_append_rtakeWhile]

theorem value_toDigits (d : Decimal) : (toDigits d).value = d.value := by
  obtain ⟨k, hk⟩ := exists_zeros (Nat.toDigits 10 d.significand)
  have hv := Nat.ofDigitChars_ten_toDigits (n := d.significand)
  have hlen := congrArg List.length hk
  change Digits.value ⟨(Nat.toDigits 10 d.significand).rdropWhile (· = '0'),
    (Nat.toDigits 10 d.significand).length + d.exponent⟩ = _
  rw [Digits.value, Decimal.value]
  simp only
  generalize (Nat.toDigits 10 d.significand).rdropWhile (· = '0') = ds at *
  rw [hk, Nat.ofDigitChars_append, zeros, Nat.ofDigitChars_replicate_zero] at hv
  rw [List.length_append, zeros, List.length_replicate] at hlen
  rw [hlen, ← hv]
  push_cast
  rw [mul_comm ((10 : ℚ) ^ k), mul_assoc, ← zpow_natCast, ← zpow_add₀ (by norm_num)]
  congr 2
  ring

/-- The digits of a positive number are some of those it is written with, from the first one on. -/
theorem digits_toDigits (d : Decimal) (hd : 0 < d.significand) :
    (toDigits d).digits ≠ [] ∧
      ∃ k, Nat.toDigits 10 d.significand = (toDigits d).digits ++ zeros k := by
  obtain ⟨k, hk⟩ := exists_zeros (Nat.toDigits 10 d.significand)
  refine ⟨?_, k, hk⟩
  intro hnil
  change (Nat.toDigits 10 d.significand).rdropWhile (· = '0') = [] at hnil
  have hv := Nat.ofDigitChars_ten_toDigits (n := d.significand)
  rw [hk, hnil, List.nil_append, zeros, Nat.ofDigitChars_replicate_zero] at hv
  omega

/-- The zeros that are dropped at the end make up for the exponent. -/
theorem exists_exponent_eq (d : Decimal) : ∃ k ≤ (Nat.toDigits 10 d.significand).length,
    (toDigits d).point - (toDigits d).digits.length = d.exponent + k := by
  obtain ⟨k, hk⟩ := exists_zeros (Nat.toDigits 10 d.significand)
  have hlen := congrArg List.length hk
  rw [List.length_append, zeros, List.length_replicate] at hlen
  change _ = (toDigits d).digits.length + k at hlen
  refine ⟨k, by omega, ?_⟩
  change ((Nat.toDigits 10 d.significand).length : ℤ) + d.exponent - _ = _
  omega

theorem value_pos_iff (d : Decimal) : 0 < d.value ↔ 0 < d.significand := by
  rw [value, mul_pos_iff_of_pos_right (by positivity), Nat.cast_pos]

end Strapdown.Decimal
