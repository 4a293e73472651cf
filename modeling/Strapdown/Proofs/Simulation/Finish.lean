import Strapdown.Proofs.Simulation.Counters

/-!
When a simulation counts as finished. That takes a step which finds nothing left to do: after the
last sample all segments have been flown, but the last one has not been left behind yet.
-/
namespace Strapdown.Simulation

variable {c : Scenario} {s s₀ last : Simulation} {samples : List Sample} {calls : List Call}

/-- A step leaves the last leg behind exactly if it finds no sample to take. -/
theorem isFinished_step (s : Simulation) :
    s.step.next.isFinished = true ↔ s.step.result = .ok none := by
  rcases s.step_cases with ⟨hl, hs⟩ | ⟨leg, hl, hs⟩
  · have hle := List.getElem?_eq_none_iff.mp hl
    rw [hs]
    exact iff_of_true (decide_eq_true hle) rfl
  · have hlt := (List.getElem?_eq_some_iff.mp hl).1
    obtain ⟨warned, hn⟩ := s.next_advance (s.position.settle s.legs) leg.rate
    rw [hs, hn, result_advance]
    refine iff_of_false ?_ ?_
    · simpa [isFinished] using hlt
    · rintro ⟨⟩

theorem isFinished_of_drains (h : Drains s samples last) : last.isFinished = true := by
  induction h with
  | done h => exact (isFinished_step _).mpr h
  | more _ _ ih => exact ih

theorem result_step_eq_none_iff (h : OnCourse c s) :
    s.step.result = .ok none ↔ s.taken = c.rates.length := by
  have hle := h.taken_le
  rw [result_step_eq h, Except.ok.injEq, List.getElem?_eq_none_iff, c.length_flight]
  omega

/-- A run takes all steps that are left, and finds that there are no more. -/
theorem run_finishes (h : OnCourse c s) :
    s.run.next.taken = c.rates.length ∧ s.run.next.isFinished = true := by
  obtain ⟨last, events, hd, -, ht, -, hrun⟩ := run_of_onCourse h h.taken_le
  rw [hrun]
  exact ⟨ht, isFinished_of_drains hd⟩

theorem taken_after (c : Scenario) (calls : List Call) : ((initial c).after calls).taken =
    if .run ∈ calls then c.rates.length else min calls.length c.rates.length := by
  induction calls using List.reverseRecOn with
  | nil => simp [after, initial]
  | append_singleton calls call ih =>
    have hc := onCourse_after (onCourse_initial c) calls
    rw [after_concat]
    cases call with
    | step =>
      change ((initial c).after calls).step.next.taken = _
      rw [taken_step hc hc.taken_le, ih]
      by_cases hrun : Call.run ∈ calls
      · simp [hrun]
      · simp only [hrun, List.mem_append, List.mem_singleton, reduceCtorEq, or_self, if_false,
          List.length_append, List.length_singleton]
        omega
    | run =>
      rw [if_pos (by simp)]
      exact (run_finishes hc).1

/-- All steps have been taken after a run, or after as many calls as there are steps. -/
theorem taken_after_eq_iff : ((initial c).after calls).taken = c.rates.length ↔
    .run ∈ calls ∨ c.rates.length ≤ calls.length := by
  rw [taken_after]
  split_ifs with hrun
  · exact iff_of_true rfl (.inl hrun)
  · rw [or_iff_right hrun]
    omega

/-- To be finished takes one call more than to take all steps, unless the calls include a run. -/
theorem isFinished_after_iff (hne : c.segments ≠ []) :
    ((initial c).after calls).isFinished = true ↔
      .run ∈ calls ∨ c.rates.length < calls.length := by
  rcases List.eq_nil_or_concat calls with rfl | ⟨before, call, rfl⟩
  · have hpos : 0 < c.legs.length := by
      rw [Scenario.legs, List.length_map]
      exact List.length_pos_of_ne_nil hne
    refine iff_of_false ?_ (by simp)
    intro hfinished
    exact absurd (of_decide_eq_true hfinished) (not_le.mpr hpos)
  · have hc := onCourse_after (onCourse_initial c) before
    rw [List.concat_eq_append, after_concat]
    cases call with
    | step =>
      change ((initial c).after before).step.next.isFinished = true ↔ _
      rw [isFinished_step, result_step_eq_none_iff hc, taken_after_eq_iff]
      simp
    | run => exact iff_of_true (run_finishes hc).2 (by simp)

/-- All segments have been flown exactly when the next step finds nothing to do. A simulation counts
as finished only after that step, or after a run, which ends with it: with as many calls as there
are steps, and no run among them, it has taken all steps and is not finished. -/
theorem finished_once_nothing_found (h : start c = .ok s₀) (calls : List Call) :
    let s := s₀.after calls
    (s.step.result = .ok none ↔ s.taken = s.totalSteps) ∧
    (s.taken = s.totalSteps ↔ .run ∈ calls ∨ s.totalSteps ≤ calls.length) ∧
    (s.isFinished = true ↔ .run ∈ calls ∨ s.totalSteps < calls.length) ∧
    (s.step.next.isFinished = true ↔ s.taken = s.totalSteps) ∧
    s.run.next.isFinished = true := by
  have hsound := Scenario.sound_of_validate (validate_of_start h)
  obtain rfl := eq_initial h
  intro s
  have hc : OnCourse c s := onCourse_after (onCourse_initial c) calls
  rw [isFinished_step, result_step_eq_none_iff hc, hc.totalSteps_eq]
  exact ⟨.rfl, taken_after_eq_iff, isFinished_after_iff hsound.segments_ne_nil, .rfl,
    (run_finishes hc).2⟩

/-- A single step at rest. -/
def singleStep : Scenario where
  rateHz := 1.0
  initialAttitude := .zero
  segments := [⟨1.0, Vec3.zero⟩]
  gyro := .standard
  telemetry := .standard

/-- The only step has been taken, and yet the simulation is not finished. -/
theorem singleStep_not_finished :
    start singleStep = .ok (initial singleStep) ∧
    ((initial singleStep).after [.step]).taken = ((initial singleStep).after [.step]).totalSteps ∧
    ((initial singleStep).after [.step]).step.result = .ok none ∧
    ((initial singleStep).after [.step]).isFinished = false ∧
    ((initial singleStep).after [.step, .step]).isFinished = true := by
  have hstart : start singleStep = .ok (initial singleStep) :=
    start_of_validate (by decide +kernel)
  have hlength : singleStep.rates.length = 1 := by decide +kernel
  have htotal (calls : List Call) : ((initial singleStep).after calls).totalSteps = 1 :=
    (onCourse_after (onCourse_initial _) calls).totalSteps_eq.trans hlength
  obtain ⟨hnone, htaken, hfinished, -⟩ := finished_once_nothing_found hstart [.step]
  obtain ⟨-, -, hlater, -⟩ := finished_once_nothing_found hstart [.step, .step]
  rw [htotal] at htaken hfinished hlater
  have hall := htaken.mpr (.inr le_rfl)
  refine ⟨hstart, hall.trans (htotal _).symm, hnone.mpr (hall.trans (htotal _).symm), ?_,
    hlater.mpr (.inr (by decide))⟩
  exact Bool.eq_false_iff.mpr fun hf => absurd (hfinished.mp hf) (by decide)

end Strapdown.Simulation
