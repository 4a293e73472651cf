import Strapdown.Proofs.Attitude.Alike
import Strapdown.Proofs.Scenario.Accepted
import Strapdown.Proofs.Simulation.Attitudes

/-!
With an ideal gyro the estimate never leaves the reference attitude: what is measured differs from
the true rates at most in the sign of zeros, and turning keeps it at that.
-/
namespace Strapdown
open Binary

variable {c : Scenario} {s₀ : Simulation} {model : GyroModel} {rate : Vec3 Float32}
  {p q : Quaternion Float32} {rs rs' : List (Vec3 Float32)} {n : Nat}

/-- A gyro without noise and without bias, whatever the signs of its zeros. -/
structure GyroModel.Ideal (model : GyroModel) : Prop where
  noise : (model.noise == 0.0) = true
  bias : ∀ x ∈ model.bias.toList, (x == 0.0) = true

namespace Gyro

theorem noise_ofModel (h : model.Ideal) : (ofModel model).noise = none := by
  have hzero : Alike model.noise 0.0 := .inr ⟨h.noise, by decide +kernel⟩
  have hnot : ¬ model.noise > 0.0 := by
    rw [gt_iff_lt, lt_congr (.refl _) hzero]
    decide +kernel
  exact noise_ofModel_of_not fun hpos => hnot hpos.1

theorem alike_add_bias (h : model.Ideal) (rate : Vec3 Float32) :
    rate.Alike (rate + model.bias) := by
  obtain ⟨hx, hy, hz, -⟩ : _ ∧ _ ∧ _ ∧ _ := by
    simpa only [Vec3.toList, List.forall_mem_cons] using h.bias
  exact ⟨alike_add_zero _ hx, alike_add_zero _ hy, alike_add_zero _ hz⟩

theorem alike_measureAll (h : model.Ideal) (rates : List (Vec3 Float32)) :
    List.Forall₂ Vec3.Alike rates ((ofModel model).measureAll rates) := by
  rw [measureAll_of_noiseless (noise_ofModel h), List.forall₂_map_right_iff, List.forall₂_same]
  exact fun rate _ => alike_add_bias h rate

end Gyro

theorem Quaternion.alike_integrateAll (hq : p.Alike q) (hrates : List.Forall₂ Vec3.Alike rs rs')
    (dt : Float32) : (p.integrateAll dt rs).Alike (q.integrateAll dt rs') := by
  induction hrates generalizing p q with
  | nil => exact hq
  | cons hrate _ ih => exact ih (alike_integrate hq hrate dt)

namespace Scenario

theorem alike_estimateAfter (h : c.gyro.Ideal) (n : Nat) :
    (c.truthAfter n).Alike (c.estimateAfter n) :=
  Quaternion.alike_integrateAll (.refl _)
    (List.forall₂_take n (Gyro.alike_measureAll h c.rates)) c.dt

theorem Sound.isFinite_rate (h : c.Sound) (hr : c.rates[n]? = some rate) :
    ∀ x ∈ rate.toList, x.isFinite = true := by
  obtain ⟨segment, hsegment, rfl⟩ := exists_segment_of_mem (List.mem_of_getElem? hr)
  exact List.all_eq_true.mp (h.segments_sound segment hsegment).2.2

theorem Sound.beq_measuredRates (h : c.Sound) (hideal : c.gyro.Ideal) :
    List.Forall₂ (fun rate measured => List.Forall₂ (fun a b => (a == b) = true) rate.toList
      measured.toList) c.rates c.measuredRates := by
  have hrates := Gyro.alike_measureAll hideal c.rates
  rw [List.forall₂_iff_get] at hrates ⊢
  refine ⟨hrates.1, fun i hi hi' => ?_⟩
  exact beq_of_forall₂ (hrates.2 i hi hi').toList
    (h.isFinite_rate (List.getElem?_eq_getElem hi))

end Scenario

namespace Simulation

/-- With an ideal gyro, a simulation estimates what is true and measures what is flown. -/
theorem ideal_gyro_follows_truth (h : start c = .ok s₀) (hideal : c.gyro.Ideal) :
    (∀ calls, (s₀.after calls).attitudes.truth.Alike (s₀.after calls).attitudes.estimate ∧
      List.Forall₂ (fun a b => (a == b) = true) (s₀.after calls).attitudes.truth.toList
        (s₀.after calls).attitudes.estimate.toList) ∧
    (∀ calls sample, (s₀.after calls).step.sample = some sample →
      ∃ rate, c.rates[(s₀.after calls).taken]? = some rate ∧
        List.Forall₂ (fun a b => (a == b) = true) rate.toList sample.measuredRate.toList) ∧
    List.Forall₂ (fun rate measured => List.Forall₂ (fun a b => (a == b) = true) rate.toList
      measured.toList) c.rates c.measuredRates := by
  have hsound := Scenario.sound_of_validate (validate_of_start h)
  have hmeasured := hsound.beq_measuredRates hideal
  obtain rfl := eq_initial h
  refine ⟨?_, ?_, hmeasured⟩
  · intro calls
    have halike := Scenario.alike_estimateAfter hideal ((initial c).after calls).taken
    rw [(onCourse_after (onCourse_initial c) calls).attitudes_eq]
    exact ⟨halike, beq_of_forall₂ halike.toList (c.isUnit_truthAfter _).isFinite⟩
  · intro calls sample hsample
    have hc := onCourse_after (onCourse_initial c) calls
    generalize (initial c).after calls = s at hc hsample ⊢
    cases hr : c.rates[s.taken]? with
    | none =>
      rw [step_of_none hc hr] at hsample
      cases hsample
    | some rate =>
      refine ⟨rate, rfl, ?_⟩
      rw [Step.sample, (result_step hc hr).2] at hsample
      obtain rfl := Option.some.inj hsample
      obtain ⟨hi, hrate⟩ := List.getElem?_eq_some_iff.mp hr
      obtain ⟨hi', hm⟩ := List.getElem?_eq_some_iff.mp (measuredRates_getElem? hc hr)
      have hstep := hmeasured.get hi hi'
      rw [List.get_eq_getElem, List.get_eq_getElem, hrate, hm] at hstep
      exact hstep

/-- A start away from level, a rate with a negative zero, and a bias of both zeros. -/
def slowRoll : Scenario where
  rateHz := 10.0
  initialAttitude := ⟨0.5, -1.0, 2.0⟩
  segments := [⟨0.3, ⟨0.25, -0.0, 1e-3⟩⟩, ⟨0.2, ⟨-0.0, 3e38, -1.0⟩⟩]
  gyro := ⟨-0.0, ⟨0.0, 0.0, -0.0⟩, 7⟩
  telemetry := .standard

theorem ideal_slowRoll : slowRoll.gyro.Ideal := by
  constructor
  · decide +kernel
  · simp only [slowRoll, Vec3.toList, List.forall_mem_cons]
    decide +kernel

theorem slowRoll_follows_truth :
    start slowRoll = .ok (initial slowRoll) ∧ slowRoll.gyro.Ideal ∧
    slowRoll.measuredRates[0]? = some ⟨0.25, 0.0, 1e-3⟩ ∧
    slowRoll.rates[0]? = some ⟨0.25, -0.0, 1e-3⟩ ∧
    List.Forall₂ (fun a b => (a == b) = true)
      ((initial slowRoll).after [.step, .run]).attitudes.truth.toList
      ((initial slowRoll).after [.step, .run]).attitudes.estimate.toList := by
  have hstart : start slowRoll = .ok (initial slowRoll) := by
    have hv : slowRoll.validate = .ok () := by decide +kernel
    rw [start, hv]
    rfl
  exact ⟨hstart, ideal_slowRoll, by decide +kernel, by decide +kernel,
    ((ideal_gyro_follows_truth hstart ideal_slowRoll).1 [.step, .run]).2⟩

end Simulation
end Strapdown
