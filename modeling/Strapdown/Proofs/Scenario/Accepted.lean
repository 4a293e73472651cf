import Strapdown.Scenario.Validity
import Strapdown.Proofs.Binary.Arithmetic

/-! What is known of the scenarios that can be flown. -/
namespace Strapdown.Scenario
open Binary

variable {c : Scenario} {condition : Bool} {violation : Violation} {x y : Except Violation Unit}
  {i : Nat} {segments : List Segment}

theorem require_eq_ok : require condition violation = .ok () ↔ condition = true := by
  unfold require
  cases condition <;> simp

theorem bind_eq_ok : (x >>= fun _ => y) = .ok () ↔ x = .ok () ∧ y = .ok () := by
  cases x with
  | error violation => simp [bind, Except.bind]
  | ok _ => exact (and_iff_right rfl).symm

theorem checkSegments_eq_ok : checkSegments i segments = .ok () ↔
    ∀ segment ∈ segments, segment.duration.isFinite = true ∧ segment.duration ≥ 0.0 ∧
      segment.rate.isFinite = true := by
  induction segments generalizing i with
  | nil => simp [checkSegments]
  | cons segment segments ih =>
    simp only [checkSegments, bind_eq_ok, require_eq_ok, ih, List.forall_mem_cons,
      Bool.and_eq_true, decide_eq_true_eq, and_assoc]

/-- The conditions on a scenario that concern its numbers one by one. -/
structure Sound (c : Scenario) : Prop where
  rateHz_finite : c.rateHz.isFinite = true
  rateHz_pos : c.rateHz > 0.0
  segments_ne_nil : c.segments ≠ []
  segments_sound : ∀ segment ∈ c.segments, segment.duration.isFinite = true ∧
    segment.duration ≥ 0.0 ∧ segment.rate.isFinite = true
  noise_finite : c.gyro.noise.isFinite = true
  noise_nonneg : c.gyro.noise ≥ 0.0
  bias_finite : c.gyro.bias.isFinite = true
  decimation_ne_zero : c.telemetry.decimation ≠ 0

theorem validate_eq_ok : c.validate = .ok () ↔
    c.Sound ∧ ¬ c.totalDuration ≤ 0.0 ∧ c.checkSteps 0 0 c.segments = .ok () := by
  simp only [validate, bind_eq_ok, require_eq_ok, checkSegments_eq_ok, Bool.and_eq_true,
    decide_eq_true_eq, Bool.not_eq_true', decide_eq_false_iff_not]
  constructor
  · rintro ⟨hrate, hsegments, hsound, hduration, hsteps, hnoise, hbias, hdecimation⟩
    exact ⟨⟨hrate.1, hrate.2, by simpa using hsegments, hsound, hnoise.1, hnoise.2, hbias,
      hdecimation⟩, hduration, hsteps⟩
  · rintro ⟨h, hduration, hsteps⟩
    exact ⟨⟨h.rateHz_finite, h.rateHz_pos⟩, by simpa using h.segments_ne_nil, h.segments_sound,
      hduration, hsteps, ⟨h.noise_finite, h.noise_nonneg⟩, h.bias_finite, h.decimation_ne_zero⟩

theorem sound_of_validate (h : c.validate = .ok ()) : c.Sound := (validate_eq_ok.1 h).1

theorem Sound.toRat_rateHz_pos (h : c.Sound) : 0 < toRat c.rateHz := by
  have hlt := (lt_iff_toRat isFinite_zero h.rateHz_finite).mp h.rateHz_pos
  rwa [toRat_zero] at hlt

end Strapdown.Scenario
