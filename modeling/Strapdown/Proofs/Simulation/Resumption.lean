import Strapdown.Proofs.Simulation.Attitudes
import Strapdown.Proofs.Binary.Largest

/-! A run is the fold of the steps that are left, wherever it starts. -/
namespace Strapdown

variable {c : Scenario} {s s₀ last : Simulation} {samples : List Sample} {d k n : Nat}

/-- All samples of a scenario. -/
def Scenario.flight (c : Scenario) : List Sample :=
  c.measuredRates.mapIdx fun i measured => c.sampleAfter (i + 1) measured

theorem Scenario.length_flight (c : Scenario) : c.flight.length = c.rates.length := by
  rw [flight, List.length_mapIdx, measuredRates, Gyro.length_measureAll]

theorem Scenario.flight_getElem? {measured : Vec3 Float32}
    (h : c.measuredRates[n]? = some measured) :
    c.flight[n]? = some (c.sampleAfter (n + 1) measured) := by
  rw [flight, List.getElem?_mapIdx, h]
  rfl

theorem Scenario.index_flight (c : Scenario) (h : n < c.flight.length) :
    c.flight[n].index = n + 1 := by
  simp [flight, sampleAfter]

theorem Scenario.map_index_flight (c : Scenario) :
    c.flight.map Sample.index = List.range' 1 c.rates.length := by
  apply List.ext_getElem
  · simp [length_flight]
  · intro i h₁ h₂
    rw [List.length_map] at h₁
    rw [List.getElem_map, c.index_flight h₁, List.getElem_range']
    omega

/-- The records that are kept of samples. -/
def records (d : Nat) (samples : List Sample) : List TelemetryRecord :=
  (samples.filter fun x => x.index % d = 0).map TelemetryRecord.ofSample

theorem records_append (d : Nat) (xs ys : List Sample) :
    records d (xs ++ ys) = records d xs ++ records d ys := by
  rw [records, List.filter_append, List.map_append]
  rfl

theorem records_singleton (d : Nat) (x : Sample) :
    records d [x] = if x.index % d = 0 then [TelemetryRecord.ofSample x] else [] := by
  by_cases hx : x.index % d = 0 <;> simp [records, hx]

/-- A record shows a sample: when it was taken, and the estimate and its drift in degrees. -/
structure Displays (x : Sample) (r : TelemetryRecord) : Prop where
  time : r.time = x.time
  roll : r.attitude.roll = Numeric.inDegrees (Euler.ofQuaternion x.attitudes.estimate).roll
  pitch : r.attitude.pitch = Numeric.inDegrees (Euler.ofQuaternion x.attitudes.estimate).pitch
  yaw : r.attitude.yaw = Numeric.inDegrees (Euler.ofQuaternion x.attitudes.estimate).yaw
  drift : r.drift = Numeric.inDegrees x.drift

theorem displays_records (d : Nat) (samples : List Sample) :
    List.Forall₂ Displays (samples.filter fun x => x.index % d = 0) (records d samples) := by
  rw [records, List.forall₂_map_right_iff, List.forall₂_same]
  exact fun x _ => ⟨rfl, rfl, rfl, rfl, rfl⟩

/-- Between two numbers, there are as many multiples as the quotients are apart. -/
theorem countP_range' (d k n : Nat) :
    (List.range' (k + 1) n).countP (fun i => i % d = 0) = (k + n) / d - k / d := by
  induction n with
  | zero => simp
  | succ n ih =>
    have hle : k / d ≤ (k + n) / d := Nat.div_le_div_right (Nat.le_add_right k n)
    have hdvd : d ∣ k + n + 1 ↔ (k + 1 + n) % d = 0 := by
      rw [Nat.dvd_iff_mod_eq_zero, Nat.add_right_comm]
    rw [List.range'_1_concat, List.countP_append, ih, ← Nat.add_assoc k n 1, Nat.succ_div]
    by_cases h : (k + 1 + n) % d = 0
    · simp only [hdvd, h, List.countP_cons, List.countP_nil, decide_true, if_true]
      omega
    · simp [hdvd, h]

theorem Scenario.length_records_drop (c : Scenario) (h : k ≤ c.rates.length) :
    (records d (c.flight.drop k)).length = c.rates.length / d - k / d := by
  have hcount := countP_range' d k (c.rates.length - k)
  rw [Nat.add_sub_cancel' h] at hcount
  rw [records, List.length_map, ← List.countP_eq_length_filter, ← hcount]
  have hmap : (c.flight.drop k).map Sample.index = List.range' (k + 1) (c.rates.length - k) := by
    rw [List.map_drop, map_index_flight, List.drop_range', Nat.add_comm 1]
    simp
  rw [← hmap, List.countP_map]
  rfl

/-- The samples beyond an index are those that come after so many. -/
theorem Scenario.filter_flight (c : Scenario) (k : Nat) :
    c.flight.filter (fun x => k < x.index) = c.flight.drop k := by
  have htake : (c.flight.take k).filter (fun x => k < x.index) = [] := by
    refine List.filter_eq_nil_iff.mpr ?_
    intro x hx
    obtain ⟨i, hi, rfl⟩ := List.mem_take_iff_getElem.mp hx
    simp only [index_flight, decide_eq_true_eq]
    omega
  have hdrop : (c.flight.drop k).filter (fun x => k < x.index) = c.flight.drop k := by
    refine List.filter_eq_self.mpr ?_
    intro x hx
    obtain ⟨i, hi, rfl⟩ := List.mem_drop_iff_getElem.mp hx
    simp only [index_flight, decide_eq_true_eq]
    omega
  calc c.flight.filter (fun x => k < x.index)
      = (c.flight.take k ++ c.flight.drop k).filter (fun x => k < x.index) := by
        rw [List.take_append_drop]
    _ = c.flight.drop k := by rw [List.filter_append, htake, hdrop, List.nil_append]

/-- The records of the samples after so many are those after as many as fall before. -/
theorem Scenario.drop_records (c : Scenario) (d k : Nat) :
    (records d c.flight).drop (k / d) = records d (c.flight.drop k) := by
  have hall := c.length_records_drop (d := d) (Nat.zero_le _)
  rw [List.drop_zero, Nat.zero_div, Nat.sub_zero] at hall
  by_cases hk : k ≤ c.rates.length
  · have hrest := c.length_records_drop (d := d) hk
    have hle : k / d ≤ c.rates.length / d := Nat.div_le_div_right hk
    have hsplit := records_append d (c.flight.take k) (c.flight.drop k)
    rw [List.take_append_drop] at hsplit
    rw [hsplit, List.length_append] at hall
    rw [hsplit]
    exact List.drop_left' (by omega)
  · have hle : c.rates.length / d ≤ k / d := Nat.div_le_div_right (by omega)
    rw [List.drop_eq_nil_of_le (by omega), List.drop_eq_nil_of_le]
    · rfl
    · rw [length_flight]
      omega

/-- Events with one of detail for every record, and with nothing of the start or end of a run. -/
structure Logs (kept : List TelemetryRecord) (events : List Event) : Prop where
  debug : events.filter (fun e => e.level = .debug) = kept.map Event.telemetry
  no_info : ∀ e ∈ events, e.level ≠ .info

theorem logs_append {xs ys : List TelemetryRecord} {es fs : List Event} (h : Logs xs es)
    (h' : Logs ys fs) : Logs (xs ++ ys) (es ++ fs) := by
  refine ⟨?_, ?_⟩
  · rw [List.filter_append, h.debug, h'.debug, List.map_append]
  · intro e he
    rcases List.mem_append.mp he with he | he
    · exact h.no_info e he
    · exact h'.no_info e he

namespace Simulation

/-- Repeated steps give samples, and lead to a state in the end. -/
inductive Drains : Simulation → List Sample → Simulation → Prop
  | done {s : Simulation} (h : s.step.result = .ok none) : Drains s [] s.step.next
  | more {s last : Simulation} {sample : Sample} {samples : List Sample}
      (h : s.step.result = .ok (some sample))
      (hs : Drains s.step.next samples last) : Drains s (sample :: samples) last

/-- A state leaves no choice in what its steps give. -/
theorem drains_unique {samples' : List Sample} {last' : Simulation} (h : Drains s samples last)
    (h' : Drains s samples' last') : samples = samples' ∧ last = last' := by
  induction h generalizing samples' with
  | done hn =>
    cases h' with
    | done _ => exact ⟨rfl, rfl⟩
    | more hs _ => cases hn.symm.trans hs
  | more hs _ ih =>
    cases h' with
    | done hn => cases hn.symm.trans hs
    | more hs' hrest =>
      obtain ⟨rfl, rfl⟩ := ih hrest
      obtain rfl := Option.some.inj (Except.ok.inj (hs.symm.trans hs'))
      exact ⟨rfl, rfl⟩

theorem scenario_step (s : Simulation) : s.step.next.scenario = s.scenario := by
  rcases s.step_cases with ⟨-, hs⟩ | ⟨leg, -, hs⟩
  · rw [hs]
  · obtain ⟨warned, hn⟩ := next_advance s (s.position.settle s.legs) leg.rate
    rw [hs, hn]

/-- A step warns at most. -/
theorem level_of_mem_events {e : Event} (he : e ∈ s.step.events) : e.level = .warn := by
  rcases s.step_cases with ⟨-, hs⟩ | ⟨leg, -, hs⟩ <;> rw [hs] at he
  · cases he
  · simp only [advance] at he
    split at he
    · rw [Option.mem_toList, warning?] at he
      split_ifs at he
      rw [← Option.some.inj he]
      rfl
    · cases he

theorem logs_step (s : Simulation) (kept : List TelemetryRecord) :
    Logs kept (s.step.events ++ kept.map Event.telemetry) := by
  constructor
  · rw [List.filter_append, List.filter_eq_nil_iff.mpr, List.filter_eq_self.mpr, List.nil_append]
    · intro e he
      obtain ⟨record, -, rfl⟩ := List.mem_map.mp he
      rfl
    · intro e he
      simp [level_of_mem_events he]
  · intro e he
    rcases List.mem_append.mp he with he | he
    · simp [level_of_mem_events he]
    · obtain ⟨record, -, rfl⟩ := List.mem_map.mp he
      exact Level.noConfusion

theorem tally_of_drains (h : Drains s samples last) (hn : samples.length < n)
    (hd : s.scenario.telemetry.decimation.toNat = d) (t : Tally) :
    ∃ events, s.tally n t = (none,
      { duration := (samples.map Sample.time).getLastD t.duration
        finalDrift := (samples.map Sample.drift).getLastD t.finalDrift
        maxDrift := (samples.map Sample.drift).foldl Numeric.largerFloat t.maxDrift
        telemetry := (records d samples).reverse ++ t.telemetry
        events := events.reverse ++ t.events }, last) ∧ Logs (records d samples) events := by
  induction h generalizing n t with
  | done h =>
    obtain _ | n := n
    · cases hn
    · refine ⟨[], ?_, rfl, by simp⟩
      rw [tally]
      simp only [h]
      rfl
  | @more s _ sample samples h _ ih =>
    obtain _ | n := n
    · cases hn
    · rw [← scenario_step] at hd
      obtain ⟨events, ht, hl⟩ := ih (Nat.lt_of_succ_lt_succ hn) hd (t.add d sample s.step.events)
      have hrecords : records d (sample :: samples) = records d [sample] ++ records d samples :=
        records_append d [sample] samples
      refine ⟨s.step.events ++ (records d [sample]).map Event.telemetry ++ events, ?_, ?_⟩
      · rw [tally]
        simp only [h]
        rw [scenario_step] at hd
        rw [hd, ht, hrecords, records_singleton]
        simp only [Tally.add, List.map_cons, List.getLastD_cons, List.foldl_cons,
          List.reverse_append, List.append_assoc]
        split_ifs <;> rfl
      · rw [hrecords]
        exact logs_append (logs_step s _) hl

/-- A step gives the next sample of the flight, if there is one. -/
theorem result_step_eq (h : OnCourse c s) : s.step.result = .ok c.flight[s.taken]? := by
  cases hr : c.rates[s.taken]? with
  | none =>
    have hle := List.getElem?_eq_none_iff.mp hr
    rw [← c.length_flight] at hle
    rw [step_of_none h hr, List.getElem?_eq_none hle]
  | some rate =>
    rw [(result_step h hr).2, Scenario.flight_getElem? (measuredRates_getElem? h hr)]

/-- The steps give the samples one after another, and none after the last. -/
theorem result_stepped (c : Scenario) (n : Nat) :
    ((initial c).stepped n).step.result = .ok c.flight[n]? := by
  rw [result_step_eq (onCourse_stepped c n), taken_stepped]
  rcases le_or_gt c.rates.length n with hle | hlt
  · rw [Nat.min_eq_right hle, List.getElem?_eq_none c.length_flight.le,
      List.getElem?_eq_none (c.length_flight.trans_le hle)]
  · rw [Nat.min_eq_left hlt.le]

/-- From any state on the course, the steps that are left give the samples that are left. -/
theorem drains_of_onCourse (h : OnCourse c s) (hle : s.taken ≤ c.rates.length) :
    ∃ last, Drains s (c.flight.drop s.taken) last ∧ OnCourse c last ∧
      last.taken = c.rates.length := by
  induction hm : c.rates.length - s.taken generalizing s with
  | zero =>
    have ht : s.taken = c.rates.length := by omega
    have hr : c.rates[s.taken]? = none := by simp [ht]
    have hdrop : c.flight.drop s.taken = [] := by
      rw [List.drop_eq_nil_iff, Scenario.length_flight, ht]
    have hn : s.step.next.taken = c.rates.length := by
      rw [taken_step h hle]
      omega
    refine ⟨s.step.next, ?_, onCourse_step h, hn⟩
    rw [hdrop]
    exact .done (by rw [step_of_none h hr])
  | succ m ih =>
    have hlt : s.taken < c.rates.length := by omega
    have hr := List.getElem?_eq_getElem hlt
    obtain ⟨ht, hres⟩ := result_step h hr
    obtain ⟨last, hd, hlast⟩ := ih (onCourse_step h) (by omega) (by omega)
    refine ⟨last, ?_, hlast⟩
    obtain ⟨hf, he⟩ := List.getElem?_eq_some_iff.mp
      (Scenario.flight_getElem? (measuredRates_getElem? h hr))
    rw [ht] at hd
    rw [List.drop_eq_getElem_cons hf, he]
    exact .more hres hd

/-- A run from any state on the course, in terms of the samples that are left. -/
theorem run_of_onCourse (h : OnCourse c s) (hle : s.taken ≤ c.rates.length) :
    let samples := c.flight.drop s.taken
    let drifts := samples.map Sample.drift
    ∃ last events, Drains s samples last ∧ OnCourse c last ∧ last.taken = c.rates.length ∧
      Logs (records c.telemetry.decimation.toNat samples) events ∧
      s.run =
        { result := .ok
            { steps := c.rates.length
              duration := (samples.map Sample.time).getLastD 0.0
              attitudes := last.attitudes
              finalDrift := drifts.getLastD 0.0
              maxDrift := drifts.foldl Numeric.largerFloat 0.0
              telemetry := records c.telemetry.decimation.toNat samples }
          events := Event.started c.rateHz c.rates.length c.segments.length :: events ++
            [.finished c.rates.length (Numeric.inDegrees (drifts.getLastD 0.0))
              (Numeric.inDegrees (drifts.foldl Numeric.largerFloat 0.0))]
          next := last } := by
  intro samples drifts
  obtain ⟨last, hd, hlast, ht⟩ := drains_of_onCourse h hle
  have hlen : samples.length < s.totalSteps - s.taken + 1 := by
    rw [h.totalSteps_eq, List.length_drop, Scenario.length_flight]
    omega
  obtain ⟨events, htally, hlogs⟩ := tally_of_drains hd hlen rfl .empty
  rw [h.scenario_eq] at hlogs htally
  refine ⟨last, events, hd, hlast, ht, hlogs, ?_⟩
  simp only [run]
  rw [htally]
  simp only [Tally.report, Tally.empty, List.append_nil, List.reverse_reverse, ht,
    h.totalSteps_eq, h.scenario_eq]
  rfl

theorem taken_after_le (h : OnCourse c s) (hle : s.taken ≤ c.rates.length) (calls : List Call) :
    (s.after calls).taken ≤ c.rates.length := by
  have hstep (s : Simulation) (hs : OnCourse c s ∧ s.taken ≤ c.rates.length) :
      OnCourse c s.step.next ∧ s.step.next.taken ≤ c.rates.length := by
    refine ⟨onCourse_step hs.1, ?_⟩
    rw [taken_step hs.1 hs.2]
    exact Nat.min_le_right _ _
  exact (kept_after hstep ⟨h, hle⟩ calls).2

theorem getLastD_map_drop {α β : Type} {xs : List α} {f : α → β} (h : k < xs.length) (z : β) :
    ((xs.drop k).map f).getLastD z = (xs.map f).getLastD z := by
  rw [List.getLastD_eq_getLast?, List.getLastD_eq_getLast?, List.map_drop, List.getLast?_drop]
  rw [if_neg (by simpa using h)]

/-- A run does what the steps that are left do, and can be resumed after any number of steps. -/
theorem run_folds_steps (h : start c = .ok s₀) :
    (∀ calls, ∃ samples last report events,
      Drains (s₀.after calls) samples last ∧
      (s₀.after calls).run =
        { result := .ok report
          events := Event.started c.rateHz c.rates.length c.segments.length :: events ++
            [.finished c.rates.length (Numeric.inDegrees report.finalDrift)
              (Numeric.inDegrees report.maxDrift)]
          next := last } ∧
      report.steps = c.rates.length ∧
      report.attitudes = last.attitudes ∧
      report.maxDrift = (samples.map Sample.drift).foldl Numeric.largerFloat 0.0 ∧
      Binary.IsLargest (0.0 :: samples.map Sample.drift) report.maxDrift ∧
      report.duration = (samples.map Sample.time).getLastD 0.0 ∧
      report.finalDrift = (samples.map Sample.drift).getLastD 0.0 ∧
      report.telemetry = records c.telemetry.decimation.toNat samples ∧
      List.Forall₂ Displays (samples.filter fun x => x.index % c.telemetry.decimation.toNat = 0)
        report.telemetry ∧
      report.telemetry.length = c.rates.length / c.telemetry.decimation.toNat -
        (s₀.after calls).taken / c.telemetry.decimation.toNat ∧
      Logs report.telemetry events) ∧
    (∀ k, ∃ samples last full resumed,
      Drains s₀ samples last ∧ s₀.run.result = .ok full ∧
      (s₀.stepped k).run.result = .ok resumed ∧
      resumed.attitudes = full.attitudes ∧
      full.telemetry = records c.telemetry.decimation.toNat samples ∧
      resumed.telemetry =
        records c.telemetry.decimation.toNat (samples.filter fun x => k < x.index) ∧
      resumed.telemetry = full.telemetry.drop (k / c.telemetry.decimation.toNat) ∧
      (k < c.rates.length →
        resumed.duration = full.duration ∧ resumed.finalDrift = full.finalDrift)) := by
  obtain rfl := eq_initial h
  have hzero : (initial c).taken ≤ c.rates.length := Nat.zero_le _
  constructor
  · intro calls
    have hle := taken_after_le (onCourse_initial c) hzero calls
    obtain ⟨last, events, hd, -, -, hl, hrun⟩ :=
      run_of_onCourse (onCourse_after (onCourse_initial c) calls) hle
    refine ⟨_, last, _, events, hd, hrun, rfl, rfl, rfl, ?_, rfl, rfl, rfl,
      displays_records _ _, ?_, hl⟩
    · exact Binary.isLargest_foldl (by decide +kernel)
    · exact c.length_records_drop hle
  · intro k
    have hk := taken_stepped c k
    have hle : ((initial c).stepped k).taken ≤ c.rates.length := by omega
    obtain ⟨last, events, hd, hlast, ht, -, hrun⟩ := run_of_onCourse (onCourse_initial c) hzero
    obtain ⟨last', events', -, hlast', ht', -, hrun'⟩ :=
      run_of_onCourse (onCourse_stepped c k) hle
    have hdrop : c.flight.drop ((initial c).stepped k).taken = c.flight.drop k := by
      rw [hk]
      by_cases hle : k ≤ c.rates.length
      · rw [Nat.min_eq_left hle]
      · rw [List.drop_eq_nil_of_le, List.drop_eq_nil_of_le] <;> rw [Scenario.length_flight] <;> omega
    change Drains _ c.flight _ at hd
    refine ⟨_, last, _, _, hd, by rw [hrun], by rw [hrun'], ?_, rfl, ?_, ?_, ?_⟩
    · rw [hlast'.attitudes_eq, hlast.attitudes_eq, ht, ht']
    · rw [c.filter_flight, hdrop]
    · rw [hdrop]
      exact (c.drop_records _ k).symm
    · intro hlt
      rw [← c.length_flight] at hlt
      rw [hdrop]
      exact ⟨getLastD_map_drop hlt _, getLastD_map_drop hlt _⟩

/-- A run of the standard scenario keeps 25 records, the samples of every hundredth step, and 24 of
them where it is resumed late. -/
theorem standard_resumes :
    start .standard = .ok (initial .standard) ∧
    ∃ samples last full resumed, Drains (initial .standard) samples last ∧
      (initial .standard).run.result = .ok full ∧
      ((initial .standard).stepped 150).run.result = .ok resumed ∧
      resumed.attitudes = full.attitudes ∧
      full.telemetry.length = 25 ∧
      List.Forall₂ Displays (samples.filter fun x => x.index % 100 = 0) full.telemetry ∧
      resumed.telemetry = full.telemetry.drop 1 := by
  obtain ⟨hruns, hresumed⟩ := run_folds_steps start_standard
  obtain ⟨_, _, full, resumed, -, hf, hr, ha, -, -, ht, -⟩ := hresumed 150
  obtain ⟨samples, last, report, _, hd, hrun, -, -, -, -, -, -, -, hdisplays, hlen, -⟩ := hruns []
  have hlength : Scenario.standard.rates.length = 2500 := by decide +kernel
  change (initial .standard).run = _ at hrun
  rw [hrun] at hf
  obtain rfl := Except.ok.inj hf
  rw [hlength] at hlen
  refine ⟨start_standard, samples, last, report, resumed, hd, by rw [hrun], hr, ha, hlen,
    hdisplays, ?_⟩
  rw [ht]
  rfl

end Simulation
end Strapdown
