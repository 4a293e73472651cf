import Strapdown.Profile
import Mathlib

/-! A position among legs is an offset into the list of all rates. -/
namespace Strapdown

variable {S : Type} {legs : List (Leg S)} {leg : Leg S} {p : Position} {i j : Nat}

namespace Leg

theorem totalSteps_take_succ (h : legs[i]? = some leg) :
    totalSteps (legs.take (i + 1)) = totalSteps (legs.take i) + leg.steps := by
  induction legs generalizing i with
  | nil => simp at h
  | cons first legs ih =>
    cases i with
    | zero =>
      rw [List.getElem?_cons_zero, Option.some.injEq] at h
      simp [totalSteps, h]
    | succ i =>
      rw [List.getElem?_cons_succ] at h
      simp only [List.take_succ_cons, totalSteps, ih h]
      omega

theorem totalSteps_eq_sum (legs : List (Leg S)) : totalSteps legs = (legs.map Leg.steps).sum := by
  induction legs with
  | nil => rfl
  | cons leg legs ih => rw [totalSteps, ih, List.map_cons, List.sum_cons]

theorem totalSteps_take_le (legs : List (Leg S)) (i : Nat) :
    totalSteps (legs.take i) ≤ totalSteps legs := by
  have hsplit := List.sum_take_add_sum_drop (legs.map Leg.steps) i
  rw [← List.map_take, ← totalSteps_eq_sum, ← totalSteps_eq_sum] at hsplit
  omega

/-- The steps of a leg follow those of all legs before it. -/
theorem rates_getElem? (h : legs[i]? = some leg) (hj : j < leg.steps) :
    (rates legs)[totalSteps (legs.take i) + j]? = some leg.rate := by
  induction legs generalizing i with
  | nil => simp at h
  | cons first legs ih =>
    cases i with
    | zero =>
      rw [List.getElem?_cons_zero, Option.some.injEq] at h
      subst h
      simp [rates, totalSteps, List.getElem?_append_left, hj]
    | succ i =>
      rw [List.getElem?_cons_succ] at h
      rw [List.take_succ_cons, totalSteps, rates, List.flatMap_cons,
        List.getElem?_append_right (by simp; omega), List.length_replicate, Nat.add_assoc,
        Nat.add_sub_cancel_left]
      exact ih h

end Leg

namespace Position

/-- How many steps lie before a position. -/
def offset (legs : List (Leg S)) (p : Position) : Nat :=
  Leg.totalSteps (legs.take p.leg) + p.step

/-- No leg has had more steps than it has, and there are none behind the last one. -/
def Within (legs : List (Leg S)) (p : Position) : Prop :=
  match legs[p.leg]? with
  | some leg => p.step ≤ leg.steps
  | none => p.step = 0

theorem within_start : start.Within legs := by
  unfold Within
  split <;> simp [start]

theorem offset_start : start.offset legs = 0 := by simp [offset, start, Leg.totalSteps]

theorem within_next_leg (i : Nat) : Within legs ⟨i, 0⟩ := by
  unfold Within
  split <;> simp

/-- A leg that is complete may be left. -/
theorem offset_next_leg (h : p.Within legs) (hl : legs[p.leg]? = some leg)
    (hs : leg.steps ≤ p.step) : offset legs ⟨p.leg + 1, 0⟩ = p.offset legs := by
  simp only [Within, hl] at h
  simp only [offset, Leg.totalSteps_take_succ hl]
  omega

/-- No more steps lie before a position than there are. -/
theorem offset_le (h : p.Within legs) : p.offset legs ≤ Leg.totalSteps legs := by
  unfold Within at h
  cases hl : legs[p.leg]? with
  | some leg =>
    simp only [hl] at h
    have hle := Leg.totalSteps_take_le legs (p.leg + 1)
    rw [Leg.totalSteps_take_succ hl] at hle
    unfold offset
    omega
  | none =>
    simp only [hl] at h
    have hle := Leg.totalSteps_take_le legs p.leg
    unfold offset
    omega

theorem settle_of_none (h : legs[p.leg]? = none) : p.settle legs = p := by
  rw [settle]
  split
  · rfl
  · next hl => simp [h] at hl

theorem settle_of_some (h : legs[p.leg]? = some leg) :
    p.settle legs = if leg.steps ≤ p.step then settle legs ⟨p.leg + 1, 0⟩ else p := by
  rw [settle]
  split
  · next hl => simp [h] at hl
  · next hl =>
    obtain rfl := Option.some.inj (h.symm.trans hl)
    rfl

theorem settle_settle (legs : List (Leg S)) (p : Position) :
    (p.settle legs).settle legs = p.settle legs := by
  induction p using settle.induct legs with
  | case1 p hl => rw [settle_of_none hl, settle_of_none hl]
  | case2 p leg hl hs ih => rwa [settle_of_some hl, if_pos hs]
  | case3 p leg hl hs => rw [settle_of_some hl, if_neg hs, settle_of_some hl, if_neg hs]

theorem within_settle (h : p.Within legs) :
    (p.settle legs).Within legs ∧ (p.settle legs).offset legs = p.offset legs := by
  induction p using settle.induct legs with
  | case1 p hl =>
    rw [settle_of_none hl]
    exact ⟨h, rfl⟩
  | case2 p leg hl hs ih =>
    rw [settle_of_some hl, if_pos hs, ← offset_next_leg h hl hs]
    exact ih (within_next_leg _)
  | case3 p leg hl hs =>
    rw [settle_of_some hl, if_neg hs]
    exact ⟨h, rfl⟩

theorem settle_leg_le (h : p.leg ≤ legs.length) : (p.settle legs).leg ≤ legs.length := by
  induction p using settle.induct legs with
  | case1 p hn =>
    rw [settle_of_none hn]
    exact h
  | case2 p leg hl hs ih =>
    rw [settle_of_some hl, if_pos hs]
    exact ih (List.getElem?_eq_some_iff.mp hl).1
  | case3 p leg hl hs =>
    rw [settle_of_some hl, if_neg hs]
    exact h

/-- A settled position is on a leg that has a step left, if it is on a leg at all. -/
theorem step_lt_of_settle (hl : legs[(p.settle legs).leg]? = some leg) :
    (p.settle legs).step < leg.steps := by
  induction p using settle.induct legs with
  | case1 p hn =>
    rw [settle_of_none hn, hn] at hl
    cases hl
  | case2 p first hf hs ih =>
    rw [settle_of_some hf, if_pos hs] at hl ⊢
    exact ih hl
  | case3 p first hf hs =>
    rw [settle_of_some hf, if_neg hs] at hl ⊢
    obtain rfl := Option.some.inj (hf.symm.trans hl)
    omega

/-- The rate at a settled position is the one that the list of all rates has at its offset. -/
theorem rates_settle (h : p.Within legs) :
    (Leg.rates legs)[p.offset legs]? = (legs[(p.settle legs).leg]?).map Leg.rate := by
  obtain ⟨hw, ho⟩ := within_settle h
  rw [← ho]
  cases hl : legs[(p.settle legs).leg]? with
  | some leg => exact Leg.rates_getElem? hl (step_lt_of_settle hl)
  | none =>
    have hlen := List.getElem?_eq_none_iff.mp hl
    rw [Option.map_none, List.getElem?_eq_none_iff, Leg.length_rates, offset,
      List.take_of_length_le hlen]
    exact Nat.le_add_right _ _

/-- A step from a settled position stays within its leg. -/
theorem within_step (hl : legs[p.leg]? = some leg) (hs : p.step < leg.steps) :
    Within legs ⟨p.leg, p.step + 1⟩ := by
  simp only [Within, hl]
  exact hs

end Position
end Strapdown
