import Strapdown.Proofs.Simulation.Course

/-! The attitudes of a simulation are unit quaternions at all times, so that it never breaks off. -/
namespace Strapdown
open Binary

variable {c : Scenario} {s s₀ : Simulation} {n : Nat} {t : Simulation.Tally}

theorem Quaternion.isUnit_integrateAll {q : Quaternion Float32} (h : q.IsUnit (2 / 10 ^ 6))
    (dt : Float32) (rates : List (Vec3 Float32)) :
    (q.integrateAll dt rates).IsUnit (2 / 10 ^ 6) := by
  induction rates generalizing q with
  | nil => exact h
  | cons rate rates ih => exact ih (isUnit_integrate .native q rate dt)

theorem Scenario.isUnit_truthAfter (c : Scenario) (n : Nat) :
    (c.truthAfter n).IsUnit (2 / 10 ^ 6) :=
  Quaternion.isUnit_integrateAll (Euler.isUnit_toQuaternion .native _) _ _

theorem Scenario.isUnit_estimateAfter (c : Scenario) (n : Nat) :
    (c.estimateAfter n).IsUnit (2 / 10 ^ 6) :=
  Quaternion.isUnit_integrateAll (Euler.isUnit_toQuaternion .native _) _ _

namespace Simulation

theorem result_step_ne_error (h : OnCourse c s) (failure : Failure) :
    s.step.result ≠ .error failure := by
  cases hr : c.rates[s.taken]? with
  | none =>
    rw [step_of_none h hr]
    rintro ⟨⟩
  | some rate =>
    rw [(result_step h hr).2]
    rintro ⟨⟩

theorem tally_failure (h : OnCourse c s) : (s.tally n t).1 = none := by
  induction n generalizing s t with
  | zero => rfl
  | succ n ih =>
    rw [tally]
    split
    · next hs => exact absurd hs (result_step_ne_error h _)
    · rfl
    · exact ih (onCourse_step h)

theorem result_run (h : OnCourse c s) :
    s.run.result = .ok ((s.tally (s.totalSteps - s.taken + 1) .empty).2.1.report s.run.next) := by
  have hf := tally_failure h (n := s.totalSteps - s.taken + 1) (t := .empty)
  simp only [run, hf]

/-- The unit norm is kept by every way to make an attitude, and so by every simulation. -/
theorem attitudes_isUnit (f : Elementary) :
    (∀ q, (@Quaternion.normalize _ f.numeric q).IsUnit (2 / 10 ^ 6)) ∧
    (∀ e, (@Euler.toQuaternion _ f.numeric e).IsUnit (2 / 10 ^ 6)) ∧
    (∀ q rate dt, (@Quaternion.integrate _ f.numeric q rate dt).IsUnit (2 / 10 ^ 6)) ∧
    (f.Circular → ∀ v, (@Quaternion.exp _ f.numeric v).IsUnit (1 / 10 ^ 5)) ∧
    (∀ c s₀, start c = .ok s₀ → ∀ calls,
      (s₀.after calls).attitudes.truth.IsUnit (2 / 10 ^ 6) ∧
      (s₀.after calls).attitudes.estimate.IsUnit (2 / 10 ^ 6) ∧
      (∀ failure, (s₀.after calls).step.result ≠ .error failure) ∧
      ∀ failure, (s₀.after calls).run.result ≠ .error failure) := by
  refine ⟨Quaternion.isUnit_normalize f, Euler.isUnit_toQuaternion f,
    Quaternion.isUnit_integrate f, Quaternion.isUnit_exp, ?_⟩
  intro c s₀ h calls
  obtain rfl := eq_initial h
  have hc := onCourse_after (onCourse_initial c) calls
  rw [hc.attitudes_eq]
  refine ⟨c.isUnit_truthAfter _, c.isUnit_estimateAfter _, result_step_ne_error hc, ?_⟩
  intro failure
  rw [result_run hc]
  rintro ⟨⟩

/-- Sine and cosine at one and, for all other numbers, at zero. -/
def oneRadian : Elementary where
  sin x := if x = 1.0 then 0.84147098 else 0.0
  cos x := if x = 1.0 then 0.5403023 else 1.0
  asin x := x
  acos x := x
  atan2 y _ := y

theorem circular_oneRadian : oneRadian.Circular := by
  refine Elementary.circular_of_points fun x _ => ?_
  simp only [oneRadian]
  split_ifs
  · exact .inl ⟨rfl, rfl⟩
  · exact .inr ⟨rfl, rfl⟩

theorem attitudes_isUnit_oneRadian :
    oneRadian.Circular ∧ start .standard = .ok (initial .standard) ∧
    (@Quaternion.exp _ oneRadian.numeric ⟨2.0, 0.0, 0.0⟩).IsUnit (1 / 10 ^ 5) ∧
    @Quaternion.exp _ oneRadian.numeric ⟨2.0, 0.0, 0.0⟩ = ⟨0.5403023, 0.84147098, 0.0, 0.0⟩ ∧
    ∀ failure, ((initial .standard).after [.step, .run, .step]).run.result ≠ .error failure := by
  have h := attitudes_isUnit oneRadian
  refine ⟨circular_oneRadian, start_standard, h.2.2.2.1 circular_oneRadian _, by decide +kernel, ?_⟩
  exact (h.2.2.2.2 _ _ start_standard _).2.2.2

end Simulation
end Strapdown
