import Strapdown.Proofs.Simulation.Finish

/-!
The warning of drift. However steps are asked for, a simulation warns once: at the first sample that
drifts beyond the limit, and before that sample is logged.
-/
namespace Strapdown

variable {c : Scenario} {s s₀ : Simulation} {x : Sample} {calls : List Simulation.Call} {n : Nat}

namespace Scenario

/-- Whether a sample drifts beyond the limit. -/
def exceeds (c : Scenario) (x : Sample) : Bool :=
  x.drift > Numeric.inRadians c.telemetry.driftLimit

/-- The warning of the drift of a sample. -/
def warning (c : Scenario) (x : Sample) : Event :=
  .driftExceeded c.telemetry.driftLimit x.index (Numeric.inDegrees x.drift)

/-- The warnings at a sample: one if it drifts beyond the limit and no sample before it does. -/
def warnings (c : Scenario) (x : Sample) : List Event :=
  if !(c.flight.take (x.index - 1)).any c.exceeds && c.exceeds x then [c.warning x] else []

/-- What a run logs at a sample. -/
def logged (c : Scenario) (x : Sample) : List Event :=
  c.warnings x ++ (records c.telemetry.decimation.toNat [x]).map Event.telemetry

/-- Where the drift or the limit is not a number, the one is not beyond the other. -/
theorem exceeds_eq_false (h : x.drift.isNaN = true ∨
    (Numeric.inRadians c.telemetry.driftLimit).isNaN = true) : c.exceeds x = false := by
  refine decide_eq_false ?_
  rcases h with h | h
  · exact Binary.not_lt_of_isNaN h
  · exact Binary.not_lt_of_isNaN_left h

theorem level_of_mem_warnings {e : Event} (he : e ∈ c.warnings x) : e.level = .warn := by
  unfold warnings at he
  split_ifs at he
  · rw [List.mem_singleton.mp he]
    rfl
  · cases he

theorem filter_logged (c : Scenario) (x : Sample) :
    (c.logged x).filter (fun e => e.level = .warn) = c.warnings x := by
  rw [logged, List.filter_append, List.filter_eq_self.mpr, List.filter_eq_nil_iff.mpr,
    List.append_nil]
  · intro e he
    obtain ⟨record, -, rfl⟩ := List.mem_map.mp he
    simp [Event.level]
  · intro e he
    exact decide_eq_true (level_of_mem_warnings he)

/-- The warnings at the next sample depend on whether one before it drifts beyond the limit. -/
theorem warnings_of_next (hx : c.flight[n]? = some x) : c.warnings x =
    if !(c.flight.take n).any c.exceeds && c.exceeds x then [c.warning x] else [] := by
  obtain ⟨hn, rfl⟩ := List.getElem?_eq_some_iff.mp hx
  rw [warnings, index_flight, Nat.add_sub_cancel]

/-- Together, samples in order give a warning of the first that drifts beyond the limit. -/
theorem warnings_take (c : Scenario) (n : Nat) : (c.flight.take n).flatMap c.warnings =
    ((c.flight.take n).find? c.exceeds).toList.map c.warning := by
  induction n with
  | zero => rfl
  | succ n ih =>
    rw [List.take_add_one, List.flatMap_append, ih, List.find?_append]
    cases hx : c.flight[n]? with
    | none => simp
    | some x =>
      rw [Option.toList_some, List.flatMap_singleton, warnings_of_next hx]
      cases hf : (c.flight.take n).find? c.exceeds with
      | none =>
        have hnone : (c.flight.take n).any c.exceeds = false :=
          List.any_eq_false.mpr (List.find?_eq_none.mp hf)
        by_cases he : c.exceeds x = true <;> simp [hnone, he]
      | some y =>
        have hsome : (c.flight.take n).any c.exceeds = true :=
          List.any_eq_true.mpr ⟨y, List.mem_of_find?_eq_some hf, List.find?_some hf⟩
        simp [hsome]

end Scenario

namespace Simulation

/-- A simulation on its course that remembers whether a sample drifted beyond the limit. -/
structure Watchful (c : Scenario) (s : Simulation) : Prop extends OnCourse c s where
  warned_eq : s.warned = (c.flight.take s.taken).any c.exceeds

theorem watchful_initial (c : Scenario) : Watchful c (initial c) where
  toOnCourse := onCourse_initial c
  warned_eq := rfl

theorem events_of_sample (h : s.step.result = .ok (some x)) :
    s.step.events = (s.warning? x.index x.drift).toList ∧
    s.step.next.warned = (s.warned || (s.warning? x.index x.drift).isSome) := by
  rcases s.step_cases with ⟨-, hs⟩ | ⟨leg, -, hs⟩
  · rw [hs] at h
    cases h
  · rw [hs] at h ⊢
    revert h
    simp only [advance]
    split
    · rintro ⟨⟩
      exact ⟨rfl, rfl⟩
    · rintro ⟨⟩

theorem events_of_none (h : s.step.result = .ok none) :
    s.step.events = [] ∧ s.step.next.warned = s.warned := by
  rcases s.step_cases with ⟨-, hs⟩ | ⟨leg, -, hs⟩
  · rw [hs]
    exact ⟨rfl, rfl⟩
  · rw [hs, result_advance] at h
    cases h

theorem warning?_eq (h : Watchful c s) (x : Sample) :
    s.warning? x.index x.drift =
      if !(c.flight.take s.taken).any c.exceeds && c.exceeds x then some (c.warning x)
      else none := by
  rw [← h.warned_eq, warning?, h.scenario_eq]
  rfl

/-- A step warns as the next sample of the flight asks for. -/
theorem events_step (h : Watchful c s) :
    s.step.events = c.flight[s.taken]?.toList.flatMap c.warnings := by
  have hres := result_step_eq h.toOnCourse
  cases hx : c.flight[s.taken]? with
  | none =>
    rw [hx] at hres
    exact (events_of_none hres).1
  | some x =>
    rw [hx] at hres
    rw [(events_of_sample hres).1, warning?_eq h, Option.toList_some,
      List.flatMap_singleton, Scenario.warnings_of_next hx]
    split_ifs <;> rfl

theorem take_step (h : OnCourse c s) :
    c.flight.take s.step.next.taken = c.flight.take s.taken ++ c.flight[s.taken]?.toList := by
  rw [taken_step h h.taken_le, ← c.length_flight, ← List.take_eq_take_min, List.take_add_one]

theorem watchful_step (h : Watchful c s) : Watchful c s.step.next := by
  refine ⟨onCourse_step h.toOnCourse, ?_⟩
  have hres := result_step_eq h.toOnCourse
  rw [take_step h.toOnCourse, List.any_append]
  cases hx : c.flight[s.taken]? with
  | none =>
    rw [hx] at hres
    rw [(events_of_none hres).2, h.warned_eq]
    exact (Bool.or_false _).symm
  | some x =>
    rw [hx] at hres
    rw [(events_of_sample hres).2, warning?_eq h, h.warned_eq]
    cases (c.flight.take s.taken).any c.exceeds <;> cases he : c.exceeds x <;> simp [he]

theorem events_add (d : Nat) (t : Tally) (x : Sample) (events : List Event) :
    (t.add d x events).events =
      (events ++ (records d [x]).map Event.telemetry).reverse ++ t.events := by
  rw [records_singleton, List.reverse_append]
  simp only [Tally.add]
  split_ifs <;> rfl

/-- As many steps as are left log all samples that are left. -/
theorem events_tally (h : Watchful c s) (hn : c.rates.length - s.taken < n) (t : Tally) :
    (s.tally n t).2.1.events = ((c.flight.drop s.taken).flatMap c.logged).reverse ++ t.events := by
  induction n generalizing s t with
  | zero => cases hn
  | succ n ih =>
    have hres := result_step_eq h.toOnCourse
    have hevents := events_step h
    rw [tally]
    cases hx : c.flight[s.taken]? with
    | none =>
      rw [hx] at hres
      simp only [hres]
      rw [List.drop_eq_nil_of_le (List.getElem?_eq_none_iff.mp hx)]
      rfl
    | some x =>
      rw [hx] at hres hevents
      simp only [hres]
      obtain ⟨hlt, hget⟩ := List.getElem?_eq_some_iff.mp hx
      have hleft : s.taken < c.rates.length := c.length_flight ▸ hlt
      have htaken : s.step.next.taken = s.taken + 1 := by
        rw [taken_step h.toOnCourse h.taken_le, Nat.min_eq_left hleft]
      have hlogged : s.step.events ++
          (records s.scenario.telemetry.decimation.toNat [x]).map Event.telemetry = c.logged x := by
        rw [hevents, h.scenario_eq]
        simp [Scenario.logged]
      rw [ih (watchful_step h) (by omega), events_add, hlogged, htaken,
        List.drop_eq_getElem_cons hlt, hget, List.flatMap_cons, List.reverse_append,
        List.append_assoc]

/-- A run logs all samples that are left, between its start and its end. -/
theorem events_run (h : Watchful c s) : ∃ report, s.run.result = .ok report ∧
    s.run.events = .started c.rateHz c.rates.length c.segments.length ::
      (c.flight.drop s.taken).flatMap c.logged ++
      [.finished c.rates.length (Numeric.inDegrees report.finalDrift)
        (Numeric.inDegrees report.maxDrift)] := by
  refine ⟨_, result_run h.toOnCourse, ?_⟩
  have hfailure := tally_failure h.toOnCourse (n := s.totalSteps - s.taken + 1) (t := .empty)
  have hnext := (run_finishes h.toOnCourse).1
  have hevents := events_tally h (n := s.totalSteps - s.taken + 1)
    (by rw [h.totalSteps_eq]; omega) .empty
  rw [next_run] at hnext
  simp only [run, hfailure]
  rw [hevents, hnext, h.totalSteps_eq, h.scenario_eq, List.reverse_append, List.reverse_reverse]
  rfl

/-- The events of a call. -/
def emitted (s : Simulation) : Call → List Event
  | .step => s.step.events
  | .run => s.run.events

/-- The events of calls, one after the other. -/
def log (s : Simulation) : List Call → List Event
  | [] => []
  | call :: calls => s.emitted call ++ (s.perform call).log calls

/-! Many steps at once. They stop where there is nothing left to take, and stepping on from there
would change nothing. -/

theorem step_of_rest (h : s.step.sample = none) :
    s.step = ⟨.ok none, [], s.step.next⟩ ∧ s.step.next.step = ⟨.ok none, [], s.step.next⟩ := by
  rcases s.step_cases with ⟨hl, hs⟩ | ⟨leg, -, hs⟩
  · rw [hs]
    refine ⟨rfl, ?_⟩
    unfold step
    simp only [Position.settle_settle, hl]
  · rw [hs, Step.sample, result_advance] at h
    cases h

theorem steps_of_rest (h : s.step.sample = none) (n : Nat) : s.steps (n + 1) = s.step := by
  unfold steps
  simp only [h]

theorem steps_one (s : Simulation) : s.steps 1 = s.step := by
  unfold steps
  cases h : s.step.sample <;> simp only [h]

theorem steps_of_sample (h : s.step.sample = some x) (n : Nat) : s.steps (n + 2) =
    { s.step.next.steps (n + 1) with
      events := s.step.events ++ (s.step.next.steps (n + 1)).events } := by
  conv_lhs => unfold steps
  simp only [h]

/-- Many steps give what the last of them gives, with the events of all. -/
theorem steps_succ (s : Simulation) (n : Nat) : s.steps (n + 1) =
    ⟨(s.stepped n).step.result, s.log (.replicate (n + 1) .step), s.stepped (n + 1)⟩ := by
  induction n generalizing s with
  | zero =>
    change _ = Step.mk s.step.result (s.step.events ++ []) s.step.next
    rw [steps_one, List.append_nil]
  | succ n ih =>
    change _ = Step.mk (s.step.next.stepped n).step.result
      (s.step.events ++ s.step.next.log (.replicate (n + 1) .step)) (s.step.next.stepped (n + 1))
    have hnext := ih s.step.next
    cases hx : s.step.sample with
    | none =>
      obtain ⟨hrest, hagain⟩ := step_of_rest hx
      have hsample : s.step.next.step.sample = none := by rw [hagain]; rfl
      rw [steps_of_rest hsample, hagain, Step.mk.injEq] at hnext
      obtain ⟨hresult, hlog, hstays⟩ := hnext
      rw [steps_of_rest hx, ← hresult, ← hlog, ← hstays, hrest]
      rfl
    | some x => rw [steps_of_sample hx, hnext]

/-- A call warns of the samples that it takes. -/
theorem warnings_emitted (h : Watchful c s) (call : Call) :
    (c.flight.take s.taken).flatMap c.warnings ++
      (s.emitted call).filter (fun e => e.level = .warn) =
    (c.flight.take (s.perform call).taken).flatMap c.warnings := by
  cases call with
  | step =>
    have hall : s.step.events.filter (fun e => e.level = .warn) = s.step.events :=
      List.filter_eq_self.mpr fun e he => decide_eq_true (level_of_mem_events he)
    simp only [emitted, perform]
    rw [hall, events_step h, take_step h.toOnCourse, List.flatMap_append]
  | run =>
    obtain ⟨report, -, hevents⟩ := events_run h
    have hleft : s.run.events.filter (fun e => e.level = .warn) =
        (c.flight.drop s.taken).flatMap c.warnings := by
      rw [hevents, List.cons_append, List.filter_cons_of_neg (by simp [Event.level]),
        List.filter_append, List.filter_flatMap]
      simp only [c.filter_logged]
      exact List.append_nil _
    simp only [emitted, perform]
    rw [hleft, (run_finishes h.toOnCourse).1, ← List.flatMap_append, List.take_append_drop,
      ← c.length_flight, List.take_length]

theorem warnings_log (h : Watchful c s) (calls : List Call) :
    (c.flight.take s.taken).flatMap c.warnings ++
      (s.log calls).filter (fun e => e.level = .warn) =
    (c.flight.take (s.after calls).taken).flatMap c.warnings := by
  induction calls generalizing s with
  | nil => exact List.append_nil _
  | cons call calls ih =>
    rw [log, List.filter_append, ← List.append_assoc, warnings_emitted h]
    refine ih ?_
    exact kept_after (fun _ => watchful_step) h [call]

/-- Over any calls, a simulation warns of the first sample that drifts beyond the limit, and of no
other. The warning is given by the step that takes that sample, and in a run it comes before the
record of the sample. -/
theorem warns_once (h : start c = .ok s₀) (calls : List Call) :
    let s := s₀.after calls
    (s₀.log calls).filter (fun e => e.level = .warn) =
      ((c.flight.take s.taken).find? c.exceeds).toList.map c.warning ∧
    s.step.result = .ok c.flight[s.taken]? ∧
    s.step.events = c.flight[s.taken]?.toList.flatMap c.warnings ∧
    ∃ report, s.run.result = .ok report ∧
      s.run.events = .started c.rateHz c.rates.length c.segments.length ::
        (c.flight.drop s.taken).flatMap c.logged ++
        [.finished c.rates.length (Numeric.inDegrees report.finalDrift)
          (Numeric.inDegrees report.maxDrift)] := by
  obtain rfl := eq_initial h
  intro s
  have hs : Watchful c s := kept_after (fun _ => watchful_step) (watchful_initial c) calls
  refine ⟨?_, result_step_eq hs.toOnCourse, events_step hs, events_run hs⟩
  rw [← Scenario.warnings_take]
  exact warnings_log (watchful_initial c) calls

end Simulation

/-- A library that is exact where there is nothing to turn. -/
structure Elementary.ExactAtZero (f : Elementary) : Prop where
  sin : f.sin 0.0 = 0.0
  cos : f.cos 0.0 = 1.0

theorem Quaternion.ofAxisAngle_zero (h : Elementary.native.ExactAtZero) (axis : Vec3 Float32) :
    ofAxisAngle axis 0.0 = if degenerate axis.length then identity
      else ofParts 1.0 ((axis.divide axis.length).scale 0.0) := by
  have hhalf : (0.0 : Float32) * 0.5 = 0.0 := by decide +kernel
  change (if degenerate axis.length then identity else ofParts (Elementary.native.cos (0.0 * 0.5))
    ((axis.divide axis.length).scale (Elementary.native.sin (0.0 * 0.5)))) = _
  rw [hhalf, h.sin, h.cos]

theorem Euler.toQuaternion_zero (h : Elementary.native.ExactAtZero) :
    (zero : Euler Float32).toQuaternion = .identity := by
  change (Quaternion.ofAxisAngle (S := Float32) ⟨0.0, 0.0, 1.0⟩ 0.0 *
    Quaternion.ofAxisAngle ⟨0.0, 1.0, 0.0⟩ 0.0 *
    Quaternion.ofAxisAngle ⟨1.0, 0.0, 0.0⟩ 0.0).normalize = _
  simp only [Quaternion.ofAxisAngle_zero h]
  decide +kernel

namespace Simulation

/-- A turn with a limit of drift that is not a number. -/
def unlimited : Scenario where
  rateHz := 10.0
  initialAttitude := .zero
  segments := [⟨0.5, ⟨0.0, 0.0, 1.0⟩⟩]
  gyro := .standard
  telemetry := ⟨2, 0.0 / 0.0⟩

/-- Two seconds at rest with an ideal gyro, and a limit of drift below zero. -/
def distrustful : Scenario where
  rateHz := 1.0
  initialAttitude := .zero
  segments := [⟨2.0, Vec3.zero⟩]
  gyro := ⟨0.0, Vec3.zero, 0⟩
  telemetry := ⟨1, -1.0⟩

theorem exceeds_unlimited (x : Sample) : unlimited.exceeds x = false :=
  Scenario.exceeds_eq_false (.inr (by decide +kernel))

theorem flight_distrustful (h : Elementary.native.ExactAtZero) : ∃ x y,
    distrustful.flight = [x, y] ∧ x.index = 1 ∧ x.time = 1.0 ∧ x.drift = 0.0 := by
  have hrates : distrustful.rates = [Vec3.zero, Vec3.zero] := by decide +kernel
  have hmeasured : distrustful.measuredRates = [Vec3.zero, Vec3.zero] := by decide +kernel
  have hinitial : distrustful.initialAttitude.toQuaternion = .identity := Euler.toQuaternion_zero h
  refine ⟨distrustful.sampleAfter 1 Vec3.zero, distrustful.sampleAfter 2 Vec3.zero, ?_, rfl,
    by decide +kernel, ?_⟩
  · rw [Scenario.flight, hmeasured]
    rfl
  · rw [Scenario.sampleAfter, Scenario.truthAfter, Scenario.estimateAfter, hinitial, hrates,
      hmeasured]
    decide +kernel

theorem warnings_distrustful (hindex : x.index = 1) (hdrift : x.drift = 0.0) :
    distrustful.exceeds x = true ∧ distrustful.warning x = .driftExceeded (-1.0) 1 0.0 ∧
      distrustful.logged x = [.driftExceeded (-1.0) 1 0.0, .telemetry (.ofSample x)] ∧
      (TelemetryRecord.ofSample x).drift = 0.0 := by
  have hd : distrustful.telemetry.decimation.toNat = 1 := by decide
  have hdegrees : Numeric.inDegrees x.drift = 0.0 := by
    rw [hdrift]
    decide +kernel
  have hexceeds : distrustful.exceeds x = true := by
    rw [Scenario.exceeds, hdrift]
    decide +kernel
  have hwarning : distrustful.warning x = .driftExceeded (-1.0) 1 0.0 := by
    rw [Scenario.warning, hindex, hdegrees]
    rfl
  refine ⟨hexceeds, hwarning, ?_, hdegrees⟩
  rw [Scenario.logged, Scenario.warnings, records_singleton, hwarning, hindex, hd]
  simp [hexceeds]

/-- No drift is beyond a limit that is not a number. One below zero makes a simulation warn of its
first sample, before the record of it, and of no other. -/
theorem warnings_of_limits :
    start unlimited = .ok (initial unlimited) ∧
    ((initial unlimited).log [.step, .run, .step]).filter (fun e => e.level = .warn) = [] ∧
    ((initial unlimited).after [.step, .run]).step.events = [] ∧
    start distrustful = .ok (initial distrustful) ∧
    (Elementary.native.ExactAtZero →
      ((initial distrustful).log [.step, .run, .step]).filter (fun e => e.level = .warn) =
        [.driftExceeded (-1.0) 1 0.0] ∧
      ∃ record rest, record.time = 1.0 ∧ record.drift = 0.0 ∧
        (initial distrustful).run.events = .started 1.0 2 1 ::
          .driftExceeded (-1.0) 1 0.0 :: .telemetry record :: rest) := by
  have hstart : start unlimited = .ok (initial unlimited) :=
    start_of_validate (by decide +kernel)
  have hstart' : start distrustful = .ok (initial distrustful) :=
    start_of_validate (by decide +kernel)
  obtain ⟨hlog, -⟩ := warns_once hstart [.step, .run, .step]
  obtain ⟨-, -, hevents, -⟩ := warns_once hstart [.step, .run]
  have hnone (n : Nat) : (unlimited.flight.take n).find? unlimited.exceeds = none :=
    List.find?_eq_none.mpr fun x _ => by simp [exceeds_unlimited]
  rw [hnone] at hlog
  refine ⟨hstart, hlog, hevents.trans (by simp [Scenario.warnings, exceeds_unlimited]), hstart', ?_⟩
  intro hexact
  obtain ⟨x, y, hflight, hindex, htime, hdrift⟩ := flight_distrustful hexact
  obtain ⟨hexceeds, hwarning, hlogged, hdegrees⟩ := warnings_distrustful hindex hdrift
  have hlength : distrustful.rates.length = 2 := by decide +kernel
  have htaken : ((initial distrustful).after [.step, .run, .step]).taken = 2 := by
    rw [taken_after, hlength]
    rfl
  obtain ⟨honce, -⟩ := warns_once hstart' [.step, .run, .step]
  obtain ⟨-, -, -, report, -, hrun⟩ := warns_once hstart' []
  constructor
  · rw [honce, htaken, hflight]
    simp [hexceeds, hwarning]
  · rw [hflight, show ((initial distrustful).after []).taken = 0 from rfl, List.drop_zero,
      List.flatMap_cons, hlogged, hlength] at hrun
    exact ⟨_, _, htime, hdegrees, hrun⟩

end Simulation
end Strapdown
