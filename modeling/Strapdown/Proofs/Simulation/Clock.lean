import Strapdown.Proofs.Binary.Range
import Strapdown.Proofs.Scenario.StepCounts
import Strapdown.Proofs.Simulation.Resumption

/-!
The clock of a simulation. It shows a count of steps times the time step, each of them rounded: it
never goes back, but late in a long simulation it stands still for a few steps.
-/
namespace Strapdown
open Binary
open Float.Model (UnpackedFloat)

variable {c : Scenario} {s₀ : Simulation} {x y : Sample} {i j n : ℕ}

theorem maxSteps_lt : (maxSteps : ℚ) < 2 ^ 27 := by norm_num [maxSteps]

namespace Scenario
variable {r s : UnpackedFloat}

theorem length_rates_le (h : c.validate = .ok ()) : c.rates.length ≤ maxSteps := by
  have hcounted := counted_of_validate h
  have htotal := (Simulation.onCourse_initial c).totalSteps_eq
  have hsum := hcounted.totalSteps_initial
  have hle := hcounted.sum_le
  omega

/-- The time step is a positive number, before it is stored. -/
theorem Sound.exists_rounds_dt (h : c.Sound) : ∃ r, Rounds .binary32 (1 / toRat c.rateHz) r ∧
    ofFloat32 c.dt = store .binary32 r ∧ 0 < value r := by
  have hpos := h.toRat_rateHz_pos
  have hr : Rounds .binary32 (toRat 1.0 / toRat c.rateHz)
      ((ofFloat32 1.0).div .binary32 (ofFloat32 c.rateHz)) :=
    div_rounds isFinite_one h.rateHz_finite hpos.ne'
  rw [toRat_one] at hr
  refine ⟨_, hr, ofFloat32_div 1.0 c.rateHz, ?_⟩
  -- no sample rate is so large that its reciprocal would vanish
  have hlarge : 2 ^ (-149 : ℤ) ≤ |1 / toRat c.rateHz| := by
    have hlt := (abs_lt.mp (abs_toRat_lt c.rateHz)).2
    rw [abs_of_pos (by positivity), le_div_iff₀ hpos]
    norm_num at hlt ⊢
    linarith
  exact lt_of_le_of_ne (hr.nonneg (by positivity)) (Ne.symm (hr.value_ne_zero hlarge))

theorem Sound.toRat_dt_pos (h : c.Sound) (hdt : c.dt.isFinite = true) : 0 < toRat c.dt := by
  obtain ⟨r, hr, hstore, hpos⟩ := h.exists_rounds_dt
  rw [← isFinite_ofFloat32, hstore] at hdt
  rw [toRat, hstore, store_of_isFinite hr.canonical hdt]
  exact hpos

/-- What the clock shows before it is stored. -/
structure Ticks (c : Scenario) (n : ℕ) (r : UnpackedFloat) : Prop where
  rounds_count : Rounds .binary32 (n : ℚ) (ofFloat32 (Float32.ofNat n))
  rounds : Rounds .binary32 (toRat (Float32.ofNat n) * toRat c.dt) r
  store_eq : ofFloat32 (Float32.ofNat n * c.dt) = store .binary32 r

theorem exists_ticks (hdt : c.dt.isFinite = true) (hn : n ≤ maxSteps) : ∃ r, c.Ticks n r := by
  have hlt : (n : ℚ) < overflow := by
    have hcast : (n : ℚ) ≤ maxSteps := by exact_mod_cast hn
    have := maxSteps_lt
    norm_num [overflow] at this ⊢
    linarith
  obtain ⟨hfin, hr⟩ := rounds_ofNat hlt
  exact ⟨_, hr, mul_rounds (by decide) (fits_ofFloat32 _).canonical (fits_ofFloat32 _).canonical
    hfin hdt, ofFloat32_mul _ _⟩

theorem Ticks.count_nonneg (h : c.Ticks n r) : 0 ≤ toRat (Float32.ofNat n) :=
  h.rounds_count.nonneg (Nat.cast_nonneg n)

theorem Ticks.count_le (hi : c.Ticks i r) (hj : c.Ticks j s) (hij : i ≤ j) :
    toRat (Float32.ofNat i) ≤ toRat (Float32.ofNat j) :=
  hi.rounds_count.value_le hj.rounds_count (by exact_mod_cast hij)

theorem Ticks.nonneg (h : c.Ticks n r) (hpos : 0 < toRat c.dt) : 0 ≤ value r :=
  h.rounds.nonneg (mul_nonneg h.count_nonneg hpos.le)

theorem Ticks.value_le (hi : c.Ticks i r) (hj : c.Ticks j s) (hpos : 0 < toRat c.dt)
    (hij : i ≤ j) : value r ≤ value s :=
  hi.rounds.value_le hj.rounds (mul_le_mul_of_nonneg_right (hi.count_le hj hij) hpos.le)

theorem Ticks.isFinite_iff (h : c.Ticks n r) (hpos : 0 < toRat c.dt) :
    (Float32.ofNat n * c.dt).isFinite = true ↔
      toRat (Float32.ofNat n) * toRat c.dt < overflow := by
  rw [← isFinite_ofFloat32, h.store_eq, isFinite_store_iff h.rounds,
    abs_of_nonneg (mul_nonneg h.count_nonneg hpos.le)]

/-- Small counts are binary numbers themselves. -/
theorem Ticks.value_lt_of_small (hi : c.Ticks i r) (hj : c.Ticks j s) (hpos : 0 < toRat c.dt)
    (hij : i < j) (hsmall : j ≤ 2 ^ 23) : value r < value s := by
  have hcount (n : ℕ) (hn : n ≤ 2 ^ 23) : toRat (Float32.ofNat n) = n :=
    (toRat_ofNat (k := n) (j := 0) (by omega) (by omega) (by simp)).2
  obtain ⟨w, hw, hlow, hhigh⟩ := exists_two_zpow hpos
  have hri := hi.rounds
  have hrj := hj.rounds
  rw [hcount i (by omega)] at hri
  rw [hcount j hsmall] at hrj
  have hcast : (i : ℚ) + 1 ≤ j := by exact_mod_cast hij
  rcases hlow.eq_or_lt with heq | hgt
  · -- counts of a power of two are exact
    have hexact {n : ℕ} {r : UnpackedFloat} (hn : n ≤ 2 ^ 23)
        (hr : Rounds .binary32 (n * toRat c.dt : ℚ) r) : value r = n * toRat c.dt := by
      apply hr.value_eq (t := w) (k := n) hw
      · change |(n : ℤ)| < 2 ^ 24
        rw [Nat.abs_cast]
        exact_mod_cast (by omega : n < 2 ^ 24)
      · rw [← heq, Int.cast_natCast]
    rw [hexact (by omega) hri, hexact hsmall hrj]
    exact mul_lt_mul_of_pos_right (by linarith) hpos
  · refine hri.multiples_lt hrj (w := w) (k := 0) (by omega) ⟨hpos, hhigh⟩ (Nat.cast_nonneg i)
      (by linarith) ?_ ?_
    · rw [add_zero]
      exact_mod_cast hsmall
    · rw [add_zero]
      calc (2 : ℚ) ^ w < 1 * toRat c.dt := by rwa [one_mul]
        _ ≤ (j - i) * toRat c.dt := mul_le_mul_of_nonneg_right (by linarith) hpos.le

/-- A count below `2 ^ (23 + k)` is off by a quarter of `2 ^ k` at most. -/
theorem Ticks.count_near (h : c.Ticks n r) {k : ℕ} (hn : n < 2 ^ (23 + k)) :
    |toRat (Float32.ofNat n) - n| ≤ 2 ^ (k : ℤ) / 4 ∧
      toRat (Float32.ofNat n) ≤ 2 ^ (23 + (k : ℤ)) := by
  have hrange : |(n : ℚ)| < 2 ^ (23 + (k : ℤ)) := by
    have hexp : 23 + (k : ℤ) = (23 + k : ℕ) := by omega
    rw [Nat.abs_cast, hexp, zpow_natCast]
    exact_mod_cast hn
  constructor
  · have hunit : (k : ℤ) - 1 + 24 = 23 + k := by omega
    have hnear := h.rounds_count.near_unit (j := k - 1) (by change -149 ≤ _; omega)
      (by change _ < (2 : ℚ) ^ ((k : ℤ) - 1 + 24); rwa [hunit])
    have hquarter : (2 : ℚ) ^ ((k : ℤ) - 1 - 1) = 2 ^ (k : ℤ) / 4 := by
      rw [zpow_sub_one₀ two_ne_zero, zpow_sub_one₀ two_ne_zero]
      ring
    rwa [hquarter] at hnear
  · have hmost := h.rounds_count.magnitude_le (by change -149 ≤ _; omega) hrange.le
    exact (le_abs_self _).trans hmost

/-- Large counts stay apart if they are more than the units of the counts and their multiples
apart. -/
theorem Ticks.value_lt_of_gap (hi : c.Ticks i r) (hj : c.Ticks j s) (hpos : 0 < toRat c.dt) {k : ℕ}
    (hlarge : j < 2 ^ (23 + k)) (hgap : 3 * 2 ^ k < 2 * (j - i)) : value r < value s := by
  have hij : i < j := by omega
  obtain ⟨w, hw, hlow, hhigh⟩ := exists_two_zpow hpos
  have hoff := (abs_le.mp (hi.count_near (hij.trans hlarge)).1).2
  obtain ⟨hnear, hmost⟩ := hj.count_near hlarge
  have hoff' := (abs_le.mp hnear).1
  have hcast : 3 * 2 ^ (k : ℤ) < 2 * ((j : ℚ) - i) := by
    have hsub : ((j - i : ℕ) : ℚ) = j - i := Nat.cast_sub hij.le
    rw [← hsub, zpow_natCast]
    exact_mod_cast hgap
  have hapart : 2 ^ (k : ℤ) < toRat (Float32.ofNat j) - toRat (Float32.ofNat i) := by linarith
  refine hi.rounds.multiples_lt hj.rounds (w := w) (k := k) (by omega) ⟨hpos, hhigh⟩
    hi.count_nonneg (hi.count_le hj hij.le) hmost ?_
  calc (2 : ℚ) ^ (w + k) = 2 ^ (k : ℤ) * 2 ^ w := by rw [add_comm, zpow_add₀ two_ne_zero]
    _ ≤ 2 ^ (k : ℤ) * toRat c.dt := mul_le_mul_of_nonneg_left hlow (by positivity)
    _ < _ := mul_lt_mul_of_pos_right hapart hpos

/-- Counts that are kept apart when they are rounded and multiplied. -/
def Apart (i j : ℕ) : Prop :=
  i < j ∧ (j ≤ 2 ^ 23 ∨ ∃ k, j < 2 ^ (23 + k) ∧ 3 * 2 ^ k < 2 * (j - i))

theorem Ticks.value_lt (hi : c.Ticks i r) (hj : c.Ticks j s) (hpos : 0 < toRat c.dt)
    (hij : Apart i j) : value r < value s := by
  obtain ⟨hlt, hsmall | ⟨k, hlarge, hgap⟩⟩ := hij
  · exact hi.value_lt_of_small hj hpos hlt hsmall
  · exact hi.value_lt_of_gap hj hpos hlarge hgap

/-- More than 24 steps apart is enough for every count of steps. -/
theorem apart_of_lt (h : i + 24 < j) (hj : j ≤ maxSteps) : Apart i j := by
  refine ⟨by omega, .inr ⟨4, ?_, ?_⟩⟩
  · exact hj.trans_lt (by decide)
  · omega

theorem mem_flight (h : x ∈ c.flight) :
    x.time = Float32.ofNat x.index * c.dt ∧ x.index ≤ c.rates.length := by
  obtain ⟨n, hn, rfl⟩ := List.getElem_of_mem h
  have hindex := c.index_flight hn
  refine ⟨?_, ?_⟩
  · rw [hindex]
    simp [flight, sampleAfter]
  · rw [hindex, ← c.length_flight]
    exact hn

/-- Samples of one simulation are apart if their steps are few or more than 24 apart. -/
theorem apart_of_mem (h : c.validate = .ok ()) (hy : y ∈ c.flight) (hxy : x.index < y.index)
    (hfar : y.index ≤ 2 ^ 23 ∨ x.index + 24 < y.index) : Apart x.index y.index := by
  rcases hfar with hsmall | hgap
  · exact ⟨hxy, .inl hsmall⟩
  · exact apart_of_lt hgap ((mem_flight hy).2.trans (length_rates_le h))

theorem exists_ticks_of_mem (h : c.validate = .ok ()) (hdt : c.dt.isFinite = true)
    (hx : x ∈ c.flight) : ∃ r, c.Ticks x.index r ∧ ofFloat32 x.time = store .binary32 r := by
  obtain ⟨htime, hindex⟩ := mem_flight hx
  obtain ⟨r, hr⟩ := exists_ticks hdt (hindex.trans (length_rates_le h))
  rw [htime]
  exact ⟨r, hr, hr.store_eq⟩

theorem time_le (h : c.validate = .ok ()) (hdt : c.dt.isFinite = true) (hx : x ∈ c.flight)
    (hy : y ∈ c.flight) (hxy : x.index ≤ y.index) : x.time ≤ y.time := by
  have hpos := (sound_of_validate h).toRat_dt_pos hdt
  obtain ⟨r, hr, hxt⟩ := exists_ticks_of_mem h hdt hx
  obtain ⟨s, hs, hyt⟩ := exists_ticks_of_mem h hdt hy
  have hle := store_le hr.rounds hs.rounds (hr.nonneg hpos) (hr.value_le hs hpos hxy)
  rw [← hxt, ← hyt] at hle
  exact decide_eq_true_iff.mpr hle

theorem time_lt (h : c.validate = .ok ()) (hdt : c.dt.isFinite = true) (hx : x ∈ c.flight)
    (hy : y ∈ c.flight) (hxy : Apart x.index y.index) (hfin : x.time.isFinite = true) :
    x.time < y.time := by
  have hpos := (sound_of_validate h).toRat_dt_pos hdt
  obtain ⟨r, hr, hxt⟩ := exists_ticks_of_mem h hdt hx
  obtain ⟨s, hs, hyt⟩ := exists_ticks_of_mem h hdt hy
  rw [← isFinite_ofFloat32, hxt] at hfin
  have hlt := store_lt hr.rounds hs.rounds hfin (hr.nonneg hpos) (hr.value_lt hs hpos hxy)
  rw [← hxt, ← hyt] at hlt
  exact (lt_iff_lt x.time y.time).mpr hlt

end Scenario

namespace Simulation
variable {s : Simulation}

/-- The samples that are kept of a flight are as far apart as the decimation tells. -/
theorem pairwise_kept (c : Scenario) (d k : ℕ) :
    ((c.flight.drop k).filter fun x => x.index % d = 0).Pairwise
      fun x y => x.index < y.index ∧ x.index + d ≤ y.index := by
  have hindex : c.flight.Pairwise fun x y => x.index < y.index := by
    rw [← List.pairwise_map, c.map_index_flight]
    exact List.pairwise_lt_range'
  refine ((hindex.sublist (List.drop_sublist k _)).filter _).imp_of_mem ?_
  intro x y hx hy hlt
  have hxd := of_decide_eq_true (List.mem_filter.mp hx).2
  have hyd := of_decide_eq_true (List.mem_filter.mp hy).2
  have hmod : x.index ≡ y.index [MOD d] := hxd.trans hyd.symm
  exact ⟨hlt, hmod.add_le_of_lt hlt⟩

/-- What holds of the times of samples that are kept, holds of the times of records. -/
theorem pairwise_records {R : Float32 → Float32 → Prop} {d k : ℕ}
    (h : ∀ x ∈ c.flight, ∀ y ∈ c.flight, x.index < y.index → x.index + d ≤ y.index →
      R x.time y.time) :
    ((records d (c.flight.drop k)).map TelemetryRecord.time).Pairwise R := by
  rw [records, List.map_map, List.pairwise_map]
  refine (pairwise_kept c d k).imp_of_mem ?_
  intro x y hx hy hlt
  have hmem {x : Sample} (hx : x ∈ (c.flight.drop k).filter fun x => x.index % d = 0) :
      x ∈ c.flight := List.mem_of_mem_drop (List.mem_of_mem_filter hx)
  exact h x (hmem hx) y (hmem hy) hlt.1 hlt.2

theorem mem_flight_of_step (h : OnCourse c s) (hx : s.step.result = .ok (some x)) :
    x ∈ c.flight := by
  rw [result_step_eq h, Except.ok.injEq] at hx
  exact List.mem_of_getElem? hx

theorem pairwise_times_le (h : c.validate = .ok ()) (hdt : c.dt.isFinite = true) (d k : ℕ) :
    ((records d (c.flight.drop k)).map TelemetryRecord.time).Pairwise (· ≤ ·) := by
  apply pairwise_records
  intro x hx y hy hlt _
  exact Scenario.time_le h hdt hx hy hlt.le

theorem pairwise_times_lt (h : c.validate = .ok ()) (hdt : c.dt.isFinite = true) {d : ℕ}
    (hfew : c.rates.length ≤ 2 ^ 23 ∨ 24 < d) (k : ℕ) :
    ((records d (c.flight.drop k)).map TelemetryRecord.time).Pairwise
      fun t u => t.isFinite = true → t < u := by
  apply pairwise_records
  intro x hx y hy hlt hle
  apply Scenario.time_lt h hdt hx hy
  apply Scenario.apart_of_mem h hy hlt
  rcases hfew with hfew | hfew
  · exact .inl ((Scenario.mem_flight hy).2.trans hfew)
  · exact .inr (by omega)

/-- The clock never goes back, and it advances from one step to a later one as long as it is in
range and the steps are few or more than 24 apart. Beyond `2 ^ 23` steps, binary numbers are too
coarse to tell all of them apart. -/
theorem clock_never_goes_back (h : start c = .ok s₀) (hdt : c.dt.isFinite = true) :
    (∀ calls calls' x y, (s₀.after calls).step.result = .ok (some x) →
      (s₀.after calls').step.result = .ok (some y) → x.index < y.index →
      x.time ≤ y.time ∧
      (Scenario.Apart x.index y.index → x.time.isFinite = true → x.time < y.time) ∧
      (y.index ≤ 2 ^ 23 ∨ x.index + 24 < y.index → x.time.isFinite = true → x.time < y.time)) ∧
    ∀ calls, ∃ report, (s₀.after calls).run.result = .ok report ∧
      (report.telemetry.map TelemetryRecord.time).Pairwise (· ≤ ·) ∧
      (s₀.totalSteps ≤ 2 ^ 23 ∨ 24 < c.telemetry.decimation.toNat →
        (report.telemetry.map TelemetryRecord.time).Pairwise
          fun t u => t.isFinite = true → t < u) := by
  have hvalid := validate_of_start h
  obtain rfl := eq_initial h
  constructor
  · intro calls calls' x y hx hy hxy
    have hx := mem_flight_of_step (onCourse_after (onCourse_initial c) calls) hx
    have hy := mem_flight_of_step (onCourse_after (onCourse_initial c) calls') hy
    have hlt := Scenario.time_lt hvalid hdt hx hy
    refine ⟨Scenario.time_le hvalid hdt hx hy hxy.le, hlt, ?_⟩
    intro hfar
    exact hlt (Scenario.apart_of_mem hvalid hy hxy hfar)
  · intro calls
    have hc := onCourse_after (onCourse_initial c) calls
    obtain ⟨last, events, -, -, -, -, hrun⟩ := run_of_onCourse hc hc.taken_le
    rw [(onCourse_initial c).totalSteps_eq]
    refine ⟨_, congrArg Run.result hrun, pairwise_times_le hvalid hdt _ _, ?_⟩
    intro hfew
    exact pairwise_times_lt hvalid hdt hfew _

theorem exists_sample_stepped (hlt : n < c.rates.length) :
    ∃ x, ((initial c).stepped n).step.result = .ok (some x) ∧ x.index = n + 1 ∧
      x.time = Float32.ofNat (n + 1) * c.dt := by
  have hflight : n < c.flight.length := by rwa [c.length_flight]
  have hindex := c.index_flight hflight
  obtain ⟨htime, -⟩ := Scenario.mem_flight (List.getElem_mem hflight)
  rw [hindex] at htime
  refine ⟨_, ?_, hindex, htime⟩
  rw [result_stepped, List.getElem?_eq_getElem hflight]

theorem standard_clock_advances :
    start .standard = .ok (initial .standard) ∧ Scenario.standard.dt.isFinite = true ∧
    (∃ x y, ((initial .standard).stepped 0).step.result = .ok (some x) ∧
      ((initial .standard).stepped 1).step.result = .ok (some y) ∧ x.time < y.time) ∧
    ∃ report, ((initial .standard).after [.step]).run.result = .ok report ∧
      (report.telemetry.map TelemetryRecord.time).Pairwise
        fun t u => t.isFinite = true → t < u := by
  have hdt : Scenario.standard.dt.isFinite = true := by decide +kernel
  have hlength : Scenario.standard.rates.length = 2500 := by decide +kernel
  obtain ⟨hsteps, hrecords⟩ := clock_never_goes_back start_standard hdt
  obtain ⟨x, hx, hxi, hxt⟩ := exists_sample_stepped (c := .standard) (n := 0) (by omega)
  obtain ⟨y, hy, hyi, -⟩ := exists_sample_stepped (c := .standard) (n := 1) (by omega)
  obtain ⟨-, -, hlt⟩ := hsteps _ _ x y hx hy (by omega)
  obtain ⟨report, hreport, -, hstrict⟩ := hrecords [.step]
  have hfin : x.time.isFinite = true := by
    rw [hxt]
    decide +kernel
  refine ⟨start_standard, hdt, ⟨x, y, hx, hy, hlt (.inl (by omega)) hfin⟩, report, hreport, ?_⟩
  exact hstrict (.inr (by decide))

/-- Three steps of half the range of time each. -/
def slowest : Scenario :=
  { Scenario.standard with
    rateHz := 5.877472e-39
    segments := .replicate 3 ⟨1.7014118e38, Vec3.zero⟩ }

/-- Two steps of one simulation at which the clock shows the same. -/
theorem exists_same_time (hij : i < j) (hj : j < c.rates.length)
    (htime : Float32.ofNat (i + 1) * c.dt = Float32.ofNat (j + 1) * c.dt) :
    ∃ x y, ((initial c).stepped i).step.result = .ok (some x) ∧
      ((initial c).stepped j).step.result = .ok (some y) ∧ x.index < y.index ∧
      x.time = y.time := by
  obtain ⟨x, hx, hxi, hxt⟩ := exists_sample_stepped (hij.trans hj)
  obtain ⟨y, hy, hyi, hyt⟩ := exists_sample_stepped hj
  exact ⟨x, y, hx, hy, by omega, by rw [hxt, hyt, htime]⟩

/-- Of all steps that are admitted, the one after `2 ^ 24` is lost on the clock. Of three steps that
take half the range each, the last two are out of range alike. -/
theorem clock_stands_still :
    (start .longest = .ok (initial .longest) ∧ Scenario.longest.dt.isFinite = true ∧
      ∃ x y, ((initial .longest).stepped 16777215).step.result = .ok (some x) ∧
        ((initial .longest).stepped 16777216).step.result = .ok (some y) ∧
        x.index < y.index ∧ x.time = y.time) ∧
    start slowest = .ok (initial slowest) ∧ slowest.dt.isFinite = true ∧
      ∃ x y, ((initial slowest).stepped 1).step.result = .ok (some x) ∧
        ((initial slowest).stepped 2).step.result = .ok (some y) ∧
        x.index < y.index ∧ x.time = y.time := by
  have hlongest : Scenario.longest.rates.length = maxSteps := by
    have hcounts : Scenario.longest.stepCounts = [maxSteps] := by decide +kernel
    have htotal := Scenario.totalSteps_legs .longest
    rw [hcounts, List.sum_singleton] at htotal
    exact (onCourse_initial .longest).totalSteps_eq.symm.trans htotal
  have hslowest : slowest.rates.length = 3 := by decide +kernel
  refine ⟨⟨start_of_validate (by decide +kernel), by decide +kernel, ?_⟩,
    start_of_validate (by decide +kernel), by decide +kernel, ?_⟩
  · apply exists_same_time (by omega)
    · rw [hlongest]
      decide
    · decide +kernel
  · apply exists_same_time (by omega)
    · omega
    · decide +kernel

end Simulation
end Strapdown
