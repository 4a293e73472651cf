import Strapdown.Proofs.Decimal.Narrowing

/-!
Decimals so near to the middle of two binary32 numbers that binary64 cannot tell them from it. A
fraction that is close to `10 ^ p / 2 ^ q` leaves only its multiples to look at.
-/
namespace Strapdown.Decimal
open Float.Model (Format UnpackedFloat totalExponent)
open Float.Model.UnpackedFloat
open Strapdown.Binary

variable {a b num den D N m : ℕ} {e p q : ℤ}

/-- A number as its shortest decimal is read, by way of binary64. -/
def reread (sign : Sign) (m : ℕ) (e : ℤ) : UnpackedFloat :=
  Literal.toBinary64 ⟨isNegative sign, (targetIn .binary32 m e).shortest .even⟩

def Survives (sign : Sign) (m : ℕ) (e : ℤ) (hm : 0 < m) : Prop :=
  (reread sign m e).isFinite = true ∧ narrow (reread sign m e) = toFloat32 (.finite sign m e hm)

instance (sign : Sign) (m : ℕ) (e : ℤ) (hm : 0 < m) : Decidable (Survives sign m e hm) :=
  inferInstanceAs (Decidable (_ ∧ _))

/-- No two counts up to `10 ^ 8` and `2 ^ 29` are as near to a ratio and not multiples of these. -/
def Separates (a b num den : ℕ) : Prop :=
  10 ^ 8 * Nat.dist (den * a) (num * b) * 2 ^ 29 + den * b < b * 2 ^ 29 ∧ 0 < den ∧
    Nat.gcd num den = 1

instance (a b num den : ℕ) : Decidable (Separates a b num den) :=
  inferInstanceAs (Decidable (_ ∧ _ ∧ _))

/-- The first convergent of `a / b` that separates, among so many. -/
def separating? (a b : ℕ) : ℕ → ℕ → ℕ → ℕ × ℕ → ℕ × ℕ → Option (ℕ × ℕ)
  | 0, _, _, _, _ => none
  | fuel + 1, x, y, before, now =>
    if Separates a b now.1 now.2 then some now
    else separating? a b fuel y (x % y) now (x / y * now.1 + before.1, x / y * now.2 + before.2)

theorem separates_of_separating? {fuel x y : ℕ} {before now : ℕ × ℕ}
    (h : separating? a b fuel x y before now = some (num, den)) : Separates a b num den := by
  induction fuel generalizing x y before now with
  | zero => cases h
  | succ fuel ih =>
    rw [separating?] at h
    split at h
    · next hs =>
      cases h
      exact hs
    · exact ih h

theorem multiple_of_separates (h : Separates a b num den) (hD : D ≤ 10 ^ 8)
    (hnear : Nat.dist (D * a) (N * b) * 2 ^ 29 ≤ b) : ∃ k, D = k * den ∧ N = k * num := by
  obtain ⟨hclose, hden, hgcd⟩ := h
  have hcross : Nat.dist (D * num) (N * den) * b ≤
      D * Nat.dist (den * a) (num * b) + den * Nat.dist (D * a) (N * b) := by
    have htri := Nat.dist.triangle_inequality (D * num * b) (D * den * a) (N * den * b)
    rw [Nat.dist_mul_right, mul_assoc D, mul_assoc D, Nat.dist_mul_left, Nat.dist_comm (num * b),
      mul_left_comm D, mul_right_comm N, mul_comm (N * b), Nat.dist_mul_left] at htri
    exact htri
  have hD' := Nat.mul_le_mul_right (Nat.dist (den * a) (num * b)) hD
  have hequal : Nat.dist (D * num) (N * den) = 0 := by
    by_contra hne
    have := Nat.le_mul_of_pos_left b (Nat.pos_of_ne_zero hne)
    have := Nat.mul_le_mul_left den hnear
    nlinarith
  have heq := Nat.eq_of_dist_eq_zero hequal
  obtain ⟨k, rfl⟩ : den ∣ D :=
    (Nat.Coprime.symm hgcd).dvd_of_dvd_mul_right ⟨N, heq.trans (mul_comm _ _)⟩
  refine ⟨k, mul_comm _ _, ?_⟩
  have : N * den = k * num * den := by rw [← heq]; ring
  exact Nat.eq_of_mul_eq_mul_right hden this

/-- A number that is not of the format, or is read back, or is the one that is known not to be. -/
def Cleared (m : ℕ) (e : ℤ) : Prop :=
  e = Format.binary32.targetExponent (totalExponent m e) → ¬ (m = 11420669 ∧ e = -107) →
    ∀ hm : 0 < m, Survives .positive m e hm ∧ Survives .negative m e hm

instance (m : ℕ) (e : ℤ) : Decidable (Cleared m e) :=
  inferInstanceAs (Decidable (_ → _ → ∀ _ : _, _))

/-- How many multiples of a fraction can be near ties; none are if they are ties. -/
def multiples (a b num den : ℕ) : ℕ :=
  let far := Nat.dist (den * a) (num * b)
  if far = 0 then 0 else min (10 ^ 8 / den) (b / (far * 2 ^ 29)) + 1

/-- The odd multiples of a fraction that can be near ties are next to cleared numbers only. -/
def multiplesCleared (a b : ℕ) (e : ℤ) (fraction : ℕ × ℕ) : Bool :=
  (List.range (multiples a b fraction.1 fraction.2)).all fun k =>
    k * fraction.1 % 2 = 0 || (Cleared (k * fraction.1 / 2) e && Cleared (k * fraction.1 / 2 + 1) e)

/-- The near ties `N * 2 ^ q` of decimals of place `p` are next to cleared numbers only. -/
def clearedAt (q p : ℤ) : Bool :=
  let a := power 10 p * power 2 (-q)
  let b := power 2 q * power 10 (-p)
  (separating? a b 100 a b (0, 1) (1, 0)).any (multiplesCleared a b (q + 1))

theorem cleared_of_separates (hs : Separates a b num den)
    (h : multiplesCleared a b e (num, den) = true) (hD : D ≤ 10 ^ 8) (hodd : N % 2 = 1)
    (hnear : Nat.dist (D * a) (N * b) * 2 ^ 29 ≤ b) (hne : D * a ≠ N * b) :
    Cleared (N / 2) e ∧ Cleared (N / 2 + 1) e := by
  obtain ⟨k, rfl, rfl⟩ := multiple_of_separates hs hD hnear
  rw [mul_assoc, mul_assoc, Nat.dist_mul_left] at hnear
  have hfar : Nat.dist (den * a) (num * b) ≠ 0 := by
    intro hz
    apply hne
    rw [mul_assoc, mul_assoc, Nat.eq_of_dist_eq_zero hz]
  have hk : k < multiples a b num den := by
    rw [multiples, if_neg hfar, Nat.lt_succ_iff, le_min_iff, Nat.le_div_iff_mul_le hs.2.1,
      Nat.le_div_iff_mul_le (by positivity), ← mul_assoc]
    exact ⟨hD, hnear⟩
  have hall := List.all_eq_true.mp h k (List.mem_range.mpr hk)
  simpa [hodd] using hall

theorem cleared_of_near (h : clearedAt q p = true) (hD : D ≤ 10 ^ 8) (hodd : N % 2 = 1)
    (hnear : Nat.dist (D * (power 10 p * power 2 (-q))) (N * (power 2 q * power 10 (-p))) * 2 ^ 29 ≤
      power 2 q * power 10 (-p))
    (hne : D * (power 10 p * power 2 (-q)) ≠ N * (power 2 q * power 10 (-p))) :
    Cleared (N / 2) (q + 1) ∧ Cleared (N / 2 + 1) (q + 1) := by
  obtain ⟨fraction, hs, hc⟩ := (Option.any_eq_true _ _).mp h
  exact cleared_of_separates (separates_of_separating? hs) hc hD hodd hnear hne

/-- The least significand of binary32 at an exponent. -/
def least (e : ℤ) : ℕ := if e = -149 then 1 else 2 ^ 23

/-- The places of the last of eight digits, for the numbers of an exponent. -/
def places (e : ℤ) : List ℤ :=
  let low := Target.magnitude ⟨least e, e, false⟩
  let high := Target.magnitude ⟨2 ^ 24 - 1, e, false⟩
  (List.range (high - low + 1).toNat).map fun (i : ℕ) => low - 8 + i

theorem clearedAt_places :
    ((List.range 254).all fun i => (places (i - 149)).all fun p => clearedAt (i - 149 - 1) p) =
      true := by
  decide +kernel

end Strapdown.Decimal
