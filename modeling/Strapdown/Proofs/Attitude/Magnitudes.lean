import Strapdown.Proofs.Attitude.Directions

/-!
The length of a vector or quaternion over the whole range. Short components have squares that are in
range, so that the plain norm measures them; components that count are measured on either path.
-/
namespace Strapdown
namespace Binary

variable {xs : List Float32} {L S : ℚ} {f : Elementary}

/-- What the measured length `ℓ` of components says about their exact length. -/
structure Measures (xs : List Float32) (ℓ : Float32) : Prop where
  not_isFinite : ¬ (∀ x ∈ xs, x.isFinite = true) → ℓ.isFinite = false
  accurate : (∀ x ∈ xs, x.isFinite = true) → 1 / 2 ^ 50 ≤ √(sumSq xs : ℝ) →
    √(sumSq xs : ℝ) ≤ 2 ^ 127 →
      ℓ.isFinite = true ∧ |(toRat ℓ : ℝ) - √(sumSq xs : ℝ)| ≤ 1 / 10 ^ 6 * √(sumSq xs : ℝ)
  negligible : (∀ x ∈ xs, x.isFinite = true) → √(sumSq xs : ℝ) < 1 / 2 ^ 50 → ℓ < 1e-10

/-- Components whose squares are in range, or one that counts. -/
theorem bounded_or_sizable (h : ∀ x ∈ xs, x.isFinite = true) :
    (∀ x ∈ xs, Bounded 10 x) ∨ Sizable xs := by
  by_cases hle : ∀ x ∈ xs, |toRat x| ≤ 2 ^ (10 : ℤ)
  · exact .inl fun x hx => ⟨h x hx, hle x hx⟩
  · push Not at hle
    obtain ⟨x, hx, hlt⟩ := hle
    exact .inr ⟨h, x, hx, le_trans (by norm_num) hlt.le⟩

/-- An accurate square belongs to a root that is accurate relative to the exact one. -/
theorem sqrt_accurate (hL : 0 ≤ L) (hS : 0 < S) (h : Within 21 S (L ^ 2)) :
    |(L : ℝ) - √(S : ℝ)| ≤ 1 / 10 ^ 6 * √(S : ℝ) := by
  have hsq : 0 < L ^ 2 := by
    have hlow := (abs_le.mp h).1
    norm_num at hlow
    linarith
  have hpos : 0 < L := lt_of_le_of_ne hL fun hz => hsq.ne' (by rw [← hz, zero_pow two_ne_zero])
  have hnear := near_sqrt hpos hS h
  have hroot : 0 < √(S : ℝ) := Real.sqrt_pos.mpr (by exact_mod_cast hS)
  have hlow := (abs_le.mp hnear).1
  rw [abs_sub_comm]
  refine hnear.trans ?_
  norm_num at hlow ⊢
  linarith

/-! The exact length and the exact sum of squares. -/

theorem le_sqrt_sumSq : 1 / 2 ^ 50 ≤ √(sumSq xs : ℝ) ↔ (1 / 2 ^ 50) ^ 2 ≤ sumSq xs := by
  rw [Real.le_sqrt' (by positivity), ← Rat.cast_le (K := ℝ)]
  push_cast
  rfl

theorem sqrt_sumSq_lt : √(sumSq xs : ℝ) < 1 / 2 ^ 50 ↔ sumSq xs < (1 / 2 ^ 50) ^ 2 := by
  rw [← not_le, le_sqrt_sumSq, not_le]

theorem sqrt_sumSq_le : √(sumSq xs : ℝ) ≤ 2 ^ 127 ↔ sumSq xs ≤ (2 ^ 127) ^ 2 := by
  rw [Real.sqrt_le_left (by positivity), ← Rat.cast_le (K := ℝ)]
  push_cast
  rfl

namespace SquareNorm
variable {T : Type} (N : SquareNorm T) {v : T}

/-- A length is no number if some component is none. -/
theorem not_isFinite_length_of_not (h : ¬ ∀ x ∈ N.toList v, x.isFinite = true) :
    (N.length v).isFinite = false := by
  have hall : (N.toList v).all Float32.isFinite = false := by
    rw [← Bool.not_eq_true, List.all_eq_true]
    exact h
  have hplain : N.length v = N.norm v := by simp [length, hall]
  rw [hplain, ← Bool.not_eq_true]
  exact fun hfin => h (N.isFinite_of_norm v hfin)

section
variable (hsmall : ∀ u, (∀ x ∈ N.toList u, Bounded 10 x) → (N.norm u).isFinite = true)
include hsmall

/-- Short components are measured on the plain path. -/
theorem length_of_bounded (h : ∀ x ∈ N.toList v, Bounded 10 x) :
    (N.norm v).isFinite = true ∧ N.length v = N.norm v := by
  have hfin := hsmall v h
  exact ⟨hfin, by simp [length, hfin]⟩

theorem isFinite_length_of_le (hv : ∀ x ∈ N.toList v, x.isFinite = true)
    (hS : sumSq (N.toList v) ≤ (2 ^ 127) ^ 2) : (N.length v).isFinite = true := by
  rcases bounded_or_sizable hv with h | h
  · obtain ⟨hfin, hlength⟩ := N.length_of_bounded hsmall h
    rw [hlength]
    exact hfin
  · exact N.isFinite_length hsmall h (hS.trans (by norm_num))

/-- A length that squares do not underflow for is accurate on the path it is measured on. -/
theorem length_near (hv : ∀ x ∈ N.toList v, x.isFinite = true)
    (hlow : (1 / 2 ^ 50) ^ 2 ≤ sumSq (N.toList v)) (hfin : (N.length v).isFinite = true) :
    0 ≤ toRat (N.length v) ∧ Within 21 (sumSq (N.toList v)) (toRat (N.length v) ^ 2) := by
  rcases bounded_or_sizable hv with h | h
  · obtain ⟨hnorm, hlength⟩ := N.length_of_bounded hsmall h
    obtain ⟨hnonneg, hnear⟩ := N.norm_near v hnorm
    rw [hlength]
    refine ⟨hnonneg, hnear.trans ?_⟩
    norm_num at hlow ⊢
    linarith
  · exact ⟨le_trans (by norm_num) (N.length_ge h hfin), N.length_accurate h hfin⟩

/-- What is shorter than the components that count is measured so. -/
theorem length_lt_negligible (hv : ∀ x ∈ N.toList v, x.isFinite = true)
    (hS : sumSq (N.toList v) < (1 / 2 ^ 50) ^ 2) : N.length v < 1e-10 := by
  have hbounded : ∀ x ∈ N.toList v, Bounded 10 x := by
    intro x hx
    refine ⟨hv x hx, ?_⟩
    have hsq : |toRat x| ^ 2 < (1 / 2 ^ 50) ^ 2 := by
      rw [sq_abs]
      exact (sq_le_sumSq hx).trans_lt hS
    exact (lt_of_pow_lt_pow_left₀ 2 (by positivity) hsq).le.trans (by norm_num)
  obtain ⟨hnorm, hlength⟩ := N.length_of_bounded hsmall hbounded
  have hnear := (abs_le.mp (N.norm_near v hnorm).2).2
  rw [hlength, lt_iff_toRat hnorm isFinite_negligible, toRat_negligible]
  have hsq : toRat (N.norm v) ^ 2 < (14411519 / 2 ^ 57) ^ 2 := by
    norm_num at hS hnear ⊢
    linarith
  exact lt_of_pow_lt_pow_left₀ 2 (by norm_num) hsq

theorem measures (v : T) : Measures (N.toList v) (N.length v) where
  not_isFinite := N.not_isFinite_length_of_not
  accurate := by
    intro hv hlow hhigh
    have hS := le_sqrt_sumSq.mp hlow
    have hfin := N.isFinite_length_of_le hsmall hv (sqrt_sumSq_le.mp hhigh)
    obtain ⟨hnonneg, hnear⟩ := N.length_near hsmall hv hS hfin
    exact ⟨hfin, sqrt_accurate hnonneg (lt_of_lt_of_le (by positivity) hS) hnear⟩
  negligible := by
    intro hv hlt
    exact N.length_lt_negligible hsmall hv (sqrt_sumSq_lt.mp hlt)

end
end SquareNorm
end Binary

namespace Quaternion
open Binary

/-- Lengths are accurate between `2 ^ -50` and `2 ^ 127`, whether or not the plain squares are too
large; shorter ones are measured as negligible, and what is not a number makes the length none. -/
theorem length_accurate_on_either_path (f : Elementary) :
    (∀ v : Vec3 Float32, Measures v.toList (@Vec3.length _ f.numeric v)) ∧
    ∀ q : Quaternion Float32, Measures q.toList (@length _ f.numeric q) :=
  ⟨(SquareNorm.vec3 f).measures fun _ => Vec3.isFinite_norm f,
    (SquareNorm.quaternion f).measures fun _ => isFinite_norm f⟩

/-- A vector whose squares are too large, a quaternion just long enough to be measured accurately, a
vector that is shorter, and a quaternion with a component that is no number. -/
theorem lengths_of_any_size :
    (⟨1e38, -1e38, 0.0⟩ : Vec3 Float32).norm.isFinite = false ∧
    (⟨1e38, -1e38, 0.0⟩ : Vec3 Float32).length.isFinite = true ∧
    |(toRat (⟨1e38, -1e38, 0.0⟩ : Vec3 Float32).length : ℝ) - √(sumSq [1e38, -1e38, 0.0] : ℝ)| ≤
      1 / 10 ^ 6 * √(sumSq [1e38, -1e38, 0.0] : ℝ) ∧
    |(toRat (length ⟨0.0, 9e-16, 0.0, 0.0⟩) : ℝ) - √(sumSq [0.0, 9e-16, 0.0, 0.0] : ℝ)| ≤
      1 / 10 ^ 6 * √(sumSq [0.0, 9e-16, 0.0, 0.0] : ℝ) ∧
    (⟨8e-16, 0.0, 1e-17⟩ : Vec3 Float32).length < 1e-10 ∧
    (length ⟨0.0 / 0.0, 1.0, 0.0, 0.0⟩ : Float32).isFinite = false := by
  obtain ⟨hvec, hquaternion⟩ := length_accurate_on_either_path .native
  have hlarge : sumSq [1e38, -1e38, 0.0] ≤ (2 ^ 127) ^ 2 ∧
      (1 / 2 ^ 50) ^ 2 ≤ sumSq [1e38, -1e38, 0.0] := by decide +kernel
  have hsmall : sumSq [0.0, 9e-16, 0.0, 0.0] ≤ (2 ^ 127) ^ 2 ∧
      (1 / 2 ^ 50) ^ 2 ≤ sumSq [0.0, 9e-16, 0.0, 0.0] := by decide +kernel
  have htiny : sumSq [8e-16, 0.0, 1e-17] < (1 / 2 ^ 50) ^ 2 := by decide +kernel
  obtain ⟨hfin, hnear⟩ := (hvec ⟨1e38, -1e38, 0.0⟩).accurate (by decide +kernel)
    (le_sqrt_sumSq.mpr hlarge.2) (sqrt_sumSq_le.mpr hlarge.1)
  exact ⟨by decide +kernel, hfin, hnear,
    ((hquaternion ⟨0.0, 9e-16, 0.0, 0.0⟩).accurate (by decide +kernel)
      (le_sqrt_sumSq.mpr hsmall.2) (sqrt_sumSq_le.mpr hsmall.1)).2,
    (hvec ⟨8e-16, 0.0, 1e-17⟩).negligible (by decide +kernel) (sqrt_sumSq_lt.mpr htiny),
    (hquaternion ⟨0.0 / 0.0, 1.0, 0.0, 0.0⟩).not_isFinite (by decide +kernel)⟩

end Quaternion
end Strapdown
