import Strapdown.Proofs.Attitude.Finite
import Strapdown.Proofs.Simulation.Clock
import Strapdown.Proofs.Simulation.Finish

/-!
The report of a run against the state that it ends in. The two agree as long as the run had a step
left to take: a run that finds all steps taken reports those, but no time and no drift.
-/
namespace Strapdown
open Binary

variable {c : Scenario} {s s₀ : Simulation} {k n : ℕ}

namespace Scenario

/-- The clock does not stand at zero after a step. -/
theorem time_ne_zero (h : c.validate = .ok ()) (hn : 1 ≤ n) (hle : n ≤ c.rates.length) :
    Float32.ofNat n * c.dt ≠ 0.0 := by
  intro hzero
  have hfin : (Float32.ofNat n * c.dt).isFinite = true := by
    rw [hzero]
    exact isFinite_zero
  obtain ⟨-, hdt⟩ := isFinite_of_mul hfin
  have hpos := (sound_of_validate h).toRat_dt_pos hdt
  obtain ⟨r, hr⟩ := exists_ticks hdt (hle.trans (length_rates_le h))
  obtain ⟨one, hone⟩ := exists_ticks (c := c) hdt (by decide : 1 ≤ maxSteps)
  have hcount : 1 ≤ toRat (Float32.ofNat n) := by
    have hexact := (toRat_ofNat (n := 1) (k := 1) (j := 0) (by decide) (by decide) rfl).2
    have hle := hone.count_le hr hn
    rwa [hexact, Nat.cast_one] at hle
  obtain ⟨w, hw, hlow, -⟩ := exists_two_zpow hpos
  have hproduct : (2 : ℚ) ^ (-149 : ℤ) ≤ |toRat (Float32.ofNat n) * toRat c.dt| := by
    calc (2 : ℚ) ^ (-149 : ℤ) ≤ 2 ^ w := zpow_le_zpow_right₀ one_le_two hw
      _ ≤ 1 * toRat c.dt := by rwa [one_mul]
      _ ≤ toRat (Float32.ofNat n) * toRat c.dt := mul_le_mul_of_nonneg_right hcount hpos.le
      _ ≤ |toRat (Float32.ofNat n) * toRat c.dt| := le_abs_self _
  apply hr.rounds.value_ne_zero hproduct
  rw [← isFinite_ofFloat32, hr.store_eq] at hfin
  rw [← store_of_isFinite hr.rounds.canonical hfin, ← hr.store_eq, hzero]
  exact toRat_zero

/-- What the samples that are left end with is what all samples end with. -/
theorem exists_last_sample (hlt : k < c.rates.length) :
    ∃ measured, ∀ (f : Sample → Float32) (z : Float32),
      ((c.flight.drop k).map f).getLastD z = f (c.sampleAfter c.rates.length measured) := by
  have hlast : c.rates.length - 1 < c.flight.length := by
    rw [c.length_flight]
    omega
  have hmeasured : c.rates.length - 1 < c.measuredRates.length := by
    rwa [flight, List.length_mapIdx] at hlast
  refine ⟨c.measuredRates[c.rates.length - 1], ?_⟩
  intro f z
  have hsample := c.flight_getElem? (List.getElem?_eq_getElem hmeasured)
  have hindex : c.rates.length - 1 + 1 = c.rates.length := by omega
  rw [hindex] at hsample
  rw [Simulation.getLastD_map_drop (by rwa [c.length_flight]), List.getLastD_eq_getLast?,
    List.getLast?_map, List.getLast?_eq_getElem?, c.length_flight, hsample]
  rfl

end Scenario

namespace Simulation

/-- A report whose numbers fit the number of steps and the attitudes that it gives. -/
structure Report.Coherent (c : Scenario) (r : Report) : Prop where
  duration_eq : r.duration = Float32.ofNat r.steps * c.dt
  finalDrift_eq : r.finalDrift = r.attitudes.drift
  finalDrift_le : r.finalDrift ≤ r.maxDrift

/-- A report has its numbers from the samples of the run, and the rest from the state after it. -/
theorem exists_report (h : OnCourse c s) : ∃ report, s.run.result = .ok report ∧
    report.steps = c.rates.length ∧
    report.attitudes = ⟨c.truthAfter c.rates.length, c.estimateAfter c.rates.length⟩ ∧
    report.duration = ((c.flight.drop s.taken).map Sample.time).getLastD 0.0 ∧
    report.finalDrift = ((c.flight.drop s.taken).map Sample.drift).getLastD 0.0 ∧
    report.maxDrift = ((c.flight.drop s.taken).map Sample.drift).foldl Numeric.largerFloat 0.0 := by
  obtain ⟨last, events, -, hlast, ht, -, hrun⟩ := run_of_onCourse h h.taken_le
  refine ⟨_, congrArg Run.result hrun, rfl, ?_, rfl, rfl, rfl⟩
  rw [← ht]
  exact hlast.attitudes_eq

/-- With a step left to take, a report fits the state after the run. -/
theorem report_fits (h : OnCourse c s) (hlt : s.taken < c.rates.length) {report : Report}
    (hrun : s.run.result = .ok report) :
    report.duration = Float32.ofNat report.steps * c.dt ∧
      report.finalDrift = report.attitudes.drift := by
  obtain ⟨_, hresult, hsteps, hattitudes, hduration, hdrift, -⟩ := exists_report h
  obtain rfl := Except.ok.inj (hrun.symm.trans hresult)
  obtain ⟨measured, hlast⟩ := c.exists_last_sample hlt
  rw [hduration, hdrift, hlast, hlast, hsteps, hattitudes]
  exact ⟨rfl, rfl⟩

/-- With no step left, a report has no time and no drift to give. -/
theorem report_empty (h : OnCourse c s) (hall : c.rates.length ≤ s.taken) {report : Report}
    (hrun : s.run.result = .ok report) :
    report.duration = 0.0 ∧ report.finalDrift = 0.0 ∧ report.maxDrift = 0.0 := by
  obtain ⟨_, hresult, -, -, hduration, hdrift, hmax⟩ := exists_report h
  obtain rfl := Except.ok.inj (hrun.symm.trans hresult)
  have hnone : c.flight.drop s.taken = [] := by
    rw [List.drop_eq_nil_iff, c.length_flight]
    exact hall
  rw [hduration, hdrift, hmax, hnone]
  exact ⟨rfl, rfl, rfl⟩

/-- The largest drift is not below the final one, unless that is no number. -/
theorem finalDrift_le (h : OnCourse c s) {report : Report} (hrun : s.run.result = .ok report)
    (hdrift : report.finalDrift.isNaN = false) : report.finalDrift ≤ report.maxDrift := by
  obtain ⟨_, hresult, -, -, -, hfinal, hmax⟩ := exists_report h
  obtain rfl := Except.ok.inj (hrun.symm.trans hresult)
  have hlargest :
      IsLargest (0.0 :: (c.flight.drop s.taken).map Sample.drift) report.maxDrift := by
    rw [hmax]
    exact isLargest_foldl (isNaN_of_isFinite isFinite_zero)
  have hmem : report.finalDrift ∈ 0.0 :: (c.flight.drop s.taken).map Sample.drift := by
    rw [hfinal]
    exact List.getLastD_mem_cons
  exact le_of_not_lt hdrift hlargest.isNaN (hlargest.not_lt _ hmem)

theorem isNaN_finalDrift (hf : Elementary.native.InRange) (h : OnCourse c s) {report : Report}
    (hrun : s.run.result = .ok report) : report.finalDrift.isNaN = false := by
  apply isNaN_of_isFinite
  rcases lt_or_ge s.taken c.rates.length with hlt | hall
  · rw [(report_fits h hlt hrun).2]
    exact Quaternion.isFinite_drift hf _ _
  · rw [(report_empty h hall hrun).2.1]
    exact isFinite_zero

theorem coherent_iff (hvalid : c.validate = .ok ()) (h : OnCourse c s) {report : Report}
    (hrun : s.run.result = .ok report) (hdrift : report.finalDrift.isNaN = false)
    (hsteps : 1 ≤ report.steps) : report.Coherent c ↔ s.taken < c.rates.length := by
  constructor
  · intro hcoherent
    by_contra hall
    obtain ⟨_, hresult, htotal, -⟩ := exists_report h
    obtain rfl := Except.ok.inj (hrun.symm.trans hresult)
    have hzero := (report_empty h (not_lt.mp hall) hrun).1
    rw [hcoherent.duration_eq] at hzero
    exact Scenario.time_ne_zero hvalid hsteps htotal.le hzero
  · intro hlt
    obtain ⟨hduration, hfinal⟩ := report_fits h hlt hrun
    exact ⟨hduration, hfinal, finalDrift_le h hrun hdrift⟩

/-- The report of a run is coherent exactly when the run took a step. After the last step, a run
still reports all steps and the attitudes that they led to, but a duration and drifts of zero. -/
theorem report_coherent_iff_step_left (h : start c = .ok s₀) (calls : List Call) :
    ∃ report, (s₀.after calls).run.result = .ok report ∧ report.steps = s₀.totalSteps ∧
      ((s₀.after calls).taken < s₀.totalSteps →
        report.duration = Float32.ofNat report.steps * c.dt ∧
        report.finalDrift = report.attitudes.drift) ∧
      (s₀.totalSteps ≤ (s₀.after calls).taken →
        report.duration = 0.0 ∧ report.finalDrift = 0.0 ∧ report.maxDrift = 0.0) ∧
      (Elementary.native.InRange → report.finalDrift.isNaN = false) ∧
      (report.finalDrift.isNaN = false → report.finalDrift ≤ report.maxDrift) ∧
      (report.finalDrift.isNaN = false → 1 ≤ report.steps →
        (report.Coherent c ↔ (s₀.after calls).taken < s₀.totalSteps)) := by
  have hvalid := validate_of_start h
  obtain rfl := eq_initial h
  have hc := onCourse_after (onCourse_initial c) calls
  obtain ⟨report, hrun, hsteps, -⟩ := exists_report hc
  rw [(onCourse_initial c).totalSteps_eq]
  refine ⟨report, hrun, hsteps, fun hlt => report_fits hc hlt hrun,
    fun hall => report_empty hc hall hrun, fun hf => isNaN_finalDrift hf hc hrun,
    fun hdrift => finalDrift_le hc hrun hdrift, ?_⟩
  intro hdrift hpos
  exact coherent_iff hvalid hc hrun hdrift hpos

/-- A single step at rest, with a gyro that measures half a radian per second. -/
def biasedStep : Scenario :=
  { singleStep with gyro := { GyroModel.standard with bias := ⟨0.5, 0.0, 0.0⟩ } }

/-- The first run takes the step, and the second one finds it taken. -/
theorem biasedStep_reports :
    start biasedStep = .ok (initial biasedStep) ∧
    (∃ report, (initial biasedStep).run.result = .ok report ∧ report.steps = 1 ∧
      report.duration = 1.0 ∧ report.finalDrift = report.attitudes.drift) ∧
    ∃ report, ((initial biasedStep).after [.run]).run.result = .ok report ∧ report.steps = 1 ∧
      report.duration = 0.0 ∧ report.finalDrift = 0.0 ∧ ¬ report.Coherent biasedStep := by
  have hstart : start biasedStep = .ok (initial biasedStep) :=
    start_of_validate (by decide +kernel)
  have htotal : (initial biasedStep).totalSteps = 1 := by decide +kernel
  have htaken : ((initial biasedStep).after [.run]).taken = 1 := by
    rw [← htotal, (onCourse_initial biasedStep).totalSteps_eq]
    exact (run_finishes (onCourse_initial biasedStep)).1
  obtain ⟨first, hfirst, hsteps, hfits, -⟩ := report_coherent_iff_step_left hstart []
  obtain ⟨second, hsecond, hsteps', -, hempty, -, -, hcoherent⟩ :=
    report_coherent_iff_step_left hstart [.run]
  rw [htotal] at hsteps hfits hsteps' hempty hcoherent
  rw [htaken] at hempty hcoherent
  obtain ⟨hduration, hfinal⟩ := hfits (by decide)
  obtain ⟨hduration', hfinal', -⟩ := hempty le_rfl
  have hone : Float32.ofNat 1 * biasedStep.dt = 1.0 := by decide +kernel
  rw [hsteps, hone] at hduration
  refine ⟨hstart, ⟨first, hfirst, hsteps, hduration, hfinal⟩, second, hsecond, hsteps', hduration',
    hfinal', ?_⟩
  intro h
  have hdrift : second.finalDrift.isNaN = false := by
    rw [hfinal']
    exact isNaN_of_isFinite isFinite_zero
  exact absurd ((hcoherent hdrift hsteps'.ge).mp h) (lt_irrefl 1)

end Simulation
end Strapdown
