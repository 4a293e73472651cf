import Mathlib
import Strapdown.Proofs.Exact.Drift
import Strapdown.Proofs.Exact.Inverse

/-!
The angle is a metric of attitudes, in exact arithmetic, and the same one from wherever attitudes
are seen. A quaternion and its negative are one point of it.
-/
namespace Strapdown

attribute [local instance] Numeric.exact
attribute [-instance] Numeric.toDiv

open scoped Real

variable {a b : Quaternion ℝ}

namespace Quaternion

theorem angleTo_nonneg (ha : a.norm = 1) (hb : b.norm = 1) : 0 ≤ a.angleTo b := by
  rw [angleTo_eq_arccos ha hb]
  exact mul_nonneg zero_le_two (Real.arccos_nonneg _)

theorem angleTo_symm (a b : Quaternion ℝ) : a.angleTo b = b.angleTo a := by
  have hdot : a.dot b = b.dot a := by rw [dot_eq, dot_eq, real_inner_comm]
  rw [angleTo, hdot]
  rfl

theorem dot_eq_one_iff (ha : a.norm = 1) (hb : b.norm = 1) : a.dot b = 1 ↔ a = b := by
  rw [norm_eq] at ha hb
  rw [dot_eq, inner_eq_one_iff_of_norm_eq_one ha hb]
  exact ⟨hamilton_injective, congrArg _⟩

/-- Unit quaternions are parallel only if they are the same but for the sign. -/
theorem abs_dot_eq_one_iff (ha : a.norm = 1) (hb : b.norm = 1) :
    |a.dot b| = 1 ↔ a = b ∨ a = -b := by
  have hneg : a.dot (-b) = -a.dot b := by rw [dot_eq, dot_eq, hamilton_neg, inner_neg_right]
  have hopposite := dot_eq_one_iff ha ((norm_neg_eq b).trans hb)
  rw [hneg] at hopposite
  rw [abs_eq zero_le_one, dot_eq_one_iff ha hb, ← hopposite, neg_eq_iff_eq_neg]

theorem angleTo_eq_zero_iff (ha : a.norm = 1) (hb : b.norm = 1) :
    a.angleTo b = 0 ↔ a = b ∨ a = -b := by
  have hle := abs_dot_le_one ha hb
  calc a.angleTo b = 0 ↔ Real.arccos |a.dot b| = 0 := by
        rw [angleTo_eq_arccos ha hb, mul_eq_zero, or_iff_right two_ne_zero]
    _ ↔ |a.dot b| = 1 := by rw [Real.arccos_eq_zero, hle.ge_iff_eq]
    _ ↔ a = b ∨ a = -b := abs_dot_eq_one_iff ha hb

/-- The angle is a metric of attitudes that turning both of them does not change, be it in
reference coordinates or in body coordinates. -/
theorem angle_metric :
    (∀ a b : Quaternion ℝ, a.norm = 1 → b.norm = 1 →
      (0 ≤ a.angleTo b ∧ a.angleTo b ≤ π) ∧ (a.angleTo b = 0 ↔ a = b ∨ a = -b) ∧
        a.angleTo b = b.angleTo a) ∧
    (∀ a b c : Quaternion ℝ, a.norm = 1 → b.norm = 1 → c.norm = 1 →
      a.angleTo c ≤ a.angleTo b + b.angleTo c) ∧
    ∀ a b g : Quaternion ℝ, a.norm = 1 → b.norm = 1 → g.norm = 1 →
      (g * a).angleTo (g * b) = a.angleTo b ∧ (a * g).angleTo (b * g) = a.angleTo b := by
  refine ⟨?_, fun a b c => angleTo_triangle, ?_⟩
  · intro a b ha hb
    exact ⟨⟨angleTo_nonneg ha hb, angleTo_le_pi ha hb⟩, angleTo_eq_zero_iff ha hb,
      angleTo_symm a b⟩
  · intro a b g _ _ hg
    exact ⟨angleTo_mul_left hg a b, angleTo_mul_right hg a b⟩

theorem longWay_angle_metric :
    (identity.norm = (1 : ℝ) ∧ longWay.norm = 1 ∧ thirdTurn.norm = 1) ∧
    (0 ≤ longWay.angleTo thirdTurn ∧ longWay.angleTo thirdTurn ≤ π) ∧
    longWay.angleTo thirdTurn ≠ 0 ∧ longWay.angleTo (-longWay) = 0 ∧
    longWay.angleTo thirdTurn = thirdTurn.angleTo longWay ∧
    longWay.angleTo thirdTurn ≤ longWay.angleTo identity + identity.angleTo thirdTurn ∧
    (thirdTurn * longWay).angleTo (thirdTurn * identity) = longWay.angleTo identity ∧
    (longWay * thirdTurn).angleTo (identity * thirdTurn) = longWay.angleTo identity := by
  have hlong : longWay.norm = 1 := norm_eq_one (by norm_num [longWay, dot])
  have hthird : thirdTurn.norm = 1 := norm_eq_one (by norm_num [thirdTurn, dot])
  have hx : thirdTurn.x ≠ 0 := by norm_num [thirdTurn]
  have hne : ¬ (longWay = thirdTurn ∨ longWay = -thirdTurn) := by
    rintro (h | h)
    · exact hx (congrArg (·.x) h).symm
    · exact neg_ne_zero.mpr hx (congrArg (·.x) h).symm
  obtain ⟨hpairs, htriangle, hturned⟩ := angle_metric
  obtain ⟨hrange, hzero, hsymm⟩ := hpairs longWay thirdTurn hlong hthird
  obtain ⟨-, hself, -⟩ := hpairs longWay (-longWay) hlong ((norm_neg_eq _).trans hlong)
  have hneg : - -longWay = longWay :=
    hamilton_injective (by rw [hamilton_neg, hamilton_neg, neg_neg])
  exact ⟨⟨norm_identity, hlong, hthird⟩, hrange, mt hzero.mp hne, hself.mpr (.inr hneg.symm), hsymm,
    htriangle _ _ _ hlong norm_identity hthird, hturned _ _ _ hlong norm_identity hthird⟩

end Quaternion
end Strapdown
