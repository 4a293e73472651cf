import Strapdown.Proofs.Attitude.Finite
import Strapdown.Proofs.Simulation.Clock
import Strapdown.Proofs.Simulation.IdealGyro

/-!
When the outputs of a simulation are numbers. Every number of an accepted scenario is finite, but
its time step is a reciprocal, its times are products and its measured rates are sums of them, and
each of these can be out of range.
-/
namespace Strapdown
open Binary
open Float.Model (UnpackedFloat)

variable {c : Scenario} {s s₀ : Simulation} {g : Gyro} {rate noise u v : Vec3 Float32}
  {x : Sample} {n : ℕ}

/-- A rounded sum that stays below the largest number by what is added to it. -/
theorem Binary.abs_add_lt_overflow {a b d : Float32} {bound : ℚ} (hfin : (a + b).isFinite = true)
    (h : |toRat a + toRat b| < 2 ^ 128 - 2 ^ 104 - bound) (hd : |toRat d| ≤ bound) :
    |toRat (a + b) + toRat d| < overflow := by
  have hnn := (abs_nonneg _).trans hd
  have hrange : |toRat a + toRat b| < 2 ^ ((104 : ℤ) + 24) := by
    norm_num at h ⊢
    linarith
  have hnear := (rounds_add hfin).near_unit (j := 104) (by decide) hrange
  have hsum := abs_sub_abs_le_abs_sub (toRat (a + b)) (toRat a + toRat b)
  have htotal := abs_add_le (toRat (a + b)) (toRat d)
  unfold overflow
  change |toRat (a + b) - _| ≤ _ at hnear
  norm_num at h hnear ⊢
  linarith

namespace Vec3

/-- The exact sums of the components are below a limit. -/
def SumsBelow (limit : ℚ) (u v : Vec3 Float32) : Prop :=
  |toRat u.x + toRat v.x| < limit ∧ |toRat u.y + toRat v.y| < limit ∧
    |toRat u.z + toRat v.z| < limit

instance (limit : ℚ) (u v : Vec3 Float32) : Decidable (SumsBelow limit u v) :=
  inferInstanceAs (Decidable (_ ∧ _))

theorem isFinite_components : v.isFinite = true ↔
    v.x.isFinite = true ∧ v.y.isFinite = true ∧ v.z.isFinite = true := by
  rw [Vec3.isFinite_iff .native]
  simp [toList]

theorem isFinite_add_iff (hu : u.isFinite = true) (hv : v.isFinite = true) :
    (u + v).isFinite = true ↔ SumsBelow overflow u v := by
  obtain ⟨hux, huy, huz⟩ := isFinite_components.mp hu
  obtain ⟨hvx, hvy, hvz⟩ := isFinite_components.mp hv
  rw [isFinite_components, add_x, add_y, add_z, Binary.isFinite_add_iff hux hvx,
    Binary.isFinite_add_iff huy hvy, Binary.isFinite_add_iff huz hvz]
  rfl

theorem sumsBelow_mono {limit limit' : ℚ} (h : SumsBelow limit u v) (hle : limit ≤ limit') :
    SumsBelow limit' u v :=
  ⟨h.1.trans_le hle, h.2.1.trans_le hle, h.2.2.trans_le hle⟩

theorem isFinite_left_of_add (h : (u + v).isFinite = true) : u.isFinite = true := by
  obtain ⟨hx, hy, hz⟩ := isFinite_components.mp h
  exact isFinite_components.mpr
    ⟨(isFinite_of_add hx).1, (isFinite_of_add hy).1, (isFinite_of_add hz).1⟩

end Vec3

namespace Gyro

/-- The noise of the next measurement; a noiseless gyro has none. -/
def noise? (g : Gyro) : Option (Vec3 Float32) :=
  g.noise.map fun deviation =>
    let (x, s) := sampleNoise deviation g.stream
    let (y, s) := sampleNoise deviation s
    let (z, _) := sampleNoise deviation s
    ⟨x, y, z⟩

theorem measure_of_none (h : g.noise? = none) (rate : Vec3 Float32) :
    (g.measure rate).1 = rate + g.bias := by
  rw [noise?, Option.map_eq_none_iff] at h
  rw [measure_of_noiseless h]

theorem measure_of_some (h : g.noise? = some noise) (rate : Vec3 Float32) :
    (g.measure rate).1 = rate + g.bias + noise := by
  obtain ⟨deviation, hd, rfl⟩ := Option.map_eq_some_iff.mp h
  rw [measure_of_noise hd]
  rfl

end Gyro

namespace Scenario

/-- The gyro before the step after so many. -/
def gyroAfter (c : Scenario) (n : ℕ) : Gyro := (Gyro.ofModel c.gyro).after (c.rates.take n)

theorem bias_gyroAfter (c : Scenario) (n : ℕ) : (c.gyroAfter n).bias = c.gyro.bias :=
  ((Gyro.ofModel c.gyro).after_keeps _).2

/-- A gyro has no noise exactly if its deviation is zero. -/
theorem Sound.noise?_eq_none_iff (h : c.Sound) (n : ℕ) :
    (c.gyroAfter n).noise? = none ↔ toRat c.gyro.noise = 0 := by
  have hge := (le_iff_toRat isFinite_zero h.noise_finite).mp h.noise_nonneg
  have hpos := lt_iff_toRat isFinite_zero h.noise_finite
  rw [toRat_zero] at hge hpos
  rw [Gyro.noise?, Option.map_eq_none_iff, gyroAfter, ((Gyro.ofModel c.gyro).after_keeps _).1,
    Gyro.ofModel]
  by_cases hnoise : c.gyro.noise > 0.0
  · have hne := (hpos.mp hnoise).ne'
    simp [hnoise, h.noise_finite, hne]
  · have hle := not_lt.mp (mt hpos.mpr hnoise)
    simp [hnoise, le_antisymm hle hge]

/-- The time step and the times are in range, and so are the rates together with the bias, up to a
limit of their own. -/
structure InRange (c : Scenario) (limit : ℚ) : Prop where
  dt : 1 / toRat c.rateHz < overflow
  time : toRat (Float32.ofNat c.rates.length) * toRat c.dt < overflow
  rates : ∀ rate ∈ c.rates, Vec3.SumsBelow limit rate c.gyro.bias

/-- All noise that is drawn is finite and within a bound. -/
def NoiseWithin (c : Scenario) (bound : ℚ) : Prop :=
  ∀ n noise, n < c.rates.length → (c.gyroAfter n).noise? = some noise →
    ∀ a ∈ noise.toList, a.isFinite = true ∧ |toRat a| ≤ bound

theorem Sound.dt_pos (h : c.Sound) : c.dt > 0.0 := by
  obtain ⟨r, hr, hstore, hpos⟩ := h.exists_rounds_dt
  have hzero : Rounds .binary32 (0 : ℚ) (.zero .positive) := rounds_of_value trivial rfl rfl
  have hlt := store_lt hzero hr (congrArg UnpackedFloat.isFinite (store_zero _ _)) le_rfl hpos
  rw [← hstore] at hlt
  exact (lt_iff_lt 0.0 c.dt).mpr hlt

theorem Sound.isFinite_dt_iff (h : c.Sound) :
    c.dt.isFinite = true ↔ 1 / toRat c.rateHz < overflow := by
  have hpos := h.toRat_rateHz_pos
  obtain ⟨r, hr, hstore, -⟩ := h.exists_rounds_dt
  rw [← isFinite_ofFloat32, hstore, isFinite_store_iff hr, abs_of_pos (by positivity)]

/-- All times are in range if the last one is. -/
theorem isFinite_time (h : c.validate = .ok ()) (hdt : c.dt.isFinite = true)
    (htime : toRat (Float32.ofNat c.rates.length) * toRat c.dt < overflow) (hx : x ∈ c.flight) :
    x.time.isFinite = true := by
  have hpos := (sound_of_validate h).toRat_dt_pos hdt
  obtain ⟨hxt, hxn⟩ := mem_flight hx
  obtain ⟨r, hr, -⟩ := exists_ticks_of_mem h hdt hx
  obtain ⟨last, hlast⟩ := exists_ticks hdt (length_rates_le h)
  have hle := mul_le_mul_of_nonneg_right (hr.count_le hlast hxn) hpos.le
  rw [hxt, hr.isFinite_iff hpos]
  exact hle.trans_lt htime

theorem exists_measured (hx : x ∈ c.flight) : ∃ n rate, x.index = n + 1 ∧ c.rates[n]? = some rate ∧
    x.measuredRate = ((c.gyroAfter n).measure rate).1 := by
  obtain ⟨n, hn, rfl⟩ := List.getElem_of_mem hx
  have hlt : n < c.rates.length := by rwa [c.length_flight] at hn
  have hrate := List.getElem?_eq_getElem hlt
  refine ⟨n, c.rates[n], c.index_flight hn, hrate, ?_⟩
  have hsample := c.flight_getElem? (Gyro.measureAll_getElem? (g := Gyro.ofModel c.gyro) hrate)
  rw [List.getElem?_eq_getElem hn, Option.some.injEq] at hsample
  rw [hsample]
  rfl

theorem Sound.isFinite_of_mem (h : c.Sound) (hr : rate ∈ c.rates) : rate.isFinite = true := by
  obtain ⟨n, hn⟩ := List.mem_iff_getElem?.mp hr
  exact (Vec3.isFinite_iff .native).mpr (h.isFinite_rate hn)

/-- Without noise, a measured rate is a number exactly if the sum is in range. -/
theorem Sound.isFinite_measured_iff (h : c.Sound) (hnoise : toRat c.gyro.noise = 0)
    (hr : rate ∈ c.rates) (n : ℕ) : ((c.gyroAfter n).measure rate).1.isFinite = true ↔
      Vec3.SumsBelow overflow rate c.gyro.bias := by
  rw [Gyro.measure_of_none ((h.noise?_eq_none_iff n).mpr hnoise), bias_gyroAfter,
    Vec3.isFinite_add_iff (h.isFinite_of_mem hr) h.bias_finite]

/-- With noise, the sum with the bias is rounded before the noise is added. -/
theorem Sound.isFinite_measured_noise_iff (h : c.Sound)
    (hnoise : (c.gyroAfter n).noise? = some noise) (hfin : noise.isFinite = true)
    (hr : rate ∈ c.rates) :
    ((c.gyroAfter n).measure rate).1.isFinite = true ↔
      Vec3.SumsBelow overflow rate c.gyro.bias ∧
        Vec3.SumsBelow overflow (rate + c.gyro.bias) noise := by
  have hsum := Vec3.isFinite_add_iff (h.isFinite_of_mem hr) h.bias_finite
  rw [Gyro.measure_of_some hnoise, bias_gyroAfter]
  constructor
  · intro hall
    have hfirst := Vec3.isFinite_left_of_add hall
    exact ⟨hsum.mp hfirst, (Vec3.isFinite_add_iff hfirst hfin).mp hall⟩
  · rintro ⟨hfirst, hall⟩
    exact (Vec3.isFinite_add_iff (hsum.mpr hfirst) hfin).mpr hall

/-- With noise within a bound, a measured rate stays in range if it is as far from its end. -/
theorem Sound.isFinite_measured_of_noiseWithin (h : c.Sound) {bound : ℚ} (hbound : 0 ≤ bound)
    (hnoise : c.NoiseWithin bound) (hr : c.rates[n]? = some rate)
    (hsum : Vec3.SumsBelow (2 ^ 128 - 2 ^ 104 - bound) rate c.gyro.bias) :
    ((c.gyroAfter n).measure rate).1.isFinite = true := by
  have hmem := List.mem_of_getElem? hr
  have hlimit : 2 ^ 128 - 2 ^ 104 - bound ≤ overflow := by
    norm_num [overflow]
    linarith
  have hfirst := Vec3.sumsBelow_mono hsum hlimit
  have hfin := (Vec3.isFinite_add_iff (h.isFinite_of_mem hmem) h.bias_finite).mpr hfirst
  cases hdrawn : (c.gyroAfter n).noise? with
  | none =>
    rw [Gyro.measure_of_none hdrawn, bias_gyroAfter]
    exact hfin
  | some noise =>
    have hwithin := hnoise n noise (List.getElem?_eq_some_iff.mp hr).1 hdrawn
    have hnoisefin : noise.isFinite = true :=
      (Vec3.isFinite_iff .native).mpr fun a ha => (hwithin a ha).1
    rw [h.isFinite_measured_noise_iff hdrawn hnoisefin hmem]
    refine ⟨hfirst, ?_⟩
    obtain ⟨hx, hy, hz⟩ := Vec3.isFinite_components.mp hfin
    simp only [Vec3.toList, List.forall_mem_cons] at hwithin
    obtain ⟨⟨-, hnx⟩, ⟨-, hny⟩, ⟨-, hnz⟩, -⟩ := hwithin
    exact ⟨abs_add_lt_overflow hx hsum.1 hnx, abs_add_lt_overflow hy hsum.2.1 hny,
      abs_add_lt_overflow hz hsum.2.2 hnz⟩

end Scenario

namespace Simulation

/-- The time step and all that the steps give are numbers. -/
structure FiniteOutputs (s : Simulation) : Prop where
  dt : s.scenario.dt.isFinite = true
  time : ∀ calls x, (s.after calls).step.result = .ok (some x) → x.time.isFinite = true
  measured : ∀ calls x, (s.after calls).step.result = .ok (some x) →
    x.measuredRate.isFinite = true

theorem finiteOutputs_of (h : c.validate = .ok ()) (hdt : 1 / toRat c.rateHz < overflow)
    (htime : toRat (Float32.ofNat c.rates.length) * toRat c.dt < overflow)
    (hmeasured : ∀ n rate, c.rates[n]? = some rate →
      ((c.gyroAfter n).measure rate).1.isFinite = true) : (initial c).FiniteOutputs := by
  have hdt' := (Scenario.sound_of_validate h).isFinite_dt_iff.mpr hdt
  refine ⟨hdt', ?_, ?_⟩
  · intro calls x hx
    have hx := mem_flight_of_step (onCourse_after (onCourse_initial c) calls) hx
    exact Scenario.isFinite_time h hdt' htime hx
  · intro calls x hx
    have hx := mem_flight_of_step (onCourse_after (onCourse_initial c) calls) hx
    obtain ⟨n, rate, -, hrate, hm⟩ := Scenario.exists_measured hx
    rw [hm]
    exact hmeasured n rate hrate

theorem inRange_of_finiteOutputs (h : c.validate = .ok ()) (hnoise : toRat c.gyro.noise = 0)
    (hfinite : (initial c).FiniteOutputs) : c.InRange overflow := by
  have hsound := Scenario.sound_of_validate h
  have hdt : c.dt.isFinite = true := hfinite.dt
  refine ⟨hsound.isFinite_dt_iff.mp hdt, ?_, ?_⟩
  · have hpos := hsound.toRat_dt_pos hdt
    obtain ⟨r, hr⟩ := Scenario.exists_ticks hdt (Scenario.length_rates_le h)
    rw [← hr.isFinite_iff hpos]
    rcases Nat.eq_zero_or_pos c.rates.length with hzero | hlast
    · rw [hr.isFinite_iff hpos, hzero]
      have hcount := (toRat_ofNat (n := 0) (k := 0) (j := 0) (by decide) (by decide) rfl).2
      rw [hcount, Nat.cast_zero, zero_mul]
      norm_num [overflow]
    · have hlt : c.rates.length - 1 < c.rates.length := by omega
      obtain ⟨x, hx, -, hxt⟩ := exists_sample_stepped hlt
      have hfin := hfinite.time (.replicate (c.rates.length - 1) .step) x hx
      rwa [hxt, Nat.sub_add_cancel hlast] at hfin
  · intro rate hr
    obtain ⟨n, hn⟩ := List.mem_iff_getElem?.mp hr
    have hsample := result_stepped c n
    rw [c.flight_getElem? (Gyro.measureAll_getElem? hn)] at hsample
    have hfin := hfinite.measured (.replicate n .step) _ hsample
    exact (hsound.isFinite_measured_iff hnoise hr n).mp hfin

/-- With noise drawn, what a step measures is a number exactly if both sums are in range. -/
theorem isFinite_measured_step (h : c.Sound) (hc : OnCourse c s)
    (hx : s.step.result = .ok (some x)) (hdrawn : (c.gyroAfter s.taken).noise? = some noise)
    (hfin : noise.isFinite = true) : ∃ rate, c.rates[s.taken]? = some rate ∧
      (x.measuredRate.isFinite = true ↔ Vec3.SumsBelow overflow rate c.gyro.bias ∧
        Vec3.SumsBelow overflow (rate + c.gyro.bias) noise) := by
  cases hr : c.rates[s.taken]? with
  | none =>
    rw [step_of_none hc hr] at hx
    cases hx
  | some rate =>
    refine ⟨rate, rfl, ?_⟩
    rw [(result_step hc hr).2, Except.ok.injEq, Option.some.injEq] at hx
    subst hx
    have hiff := h.isFinite_measured_noise_iff hdrawn hfin (List.mem_of_getElem? hr)
    rw [Scenario.gyroAfter, ← hc.gyro_eq] at hiff
    exact hiff

/-- Accepted scenarios give numbers as far as their time step, their times and their rates together
with the bias are in range, which validation does not ask for. With noise, the range of the rates is
smaller by ten deviations and a rounding. -/
theorem finite_outputs_in_range (h : start c = .ok s₀) :
    c.dt > 0.0 ∧
    (toRat c.gyro.noise = 0 → (s₀.FiniteOutputs ↔ c.InRange overflow)) ∧
    (c.NoiseWithin (10 * toRat c.gyro.noise) →
      c.InRange (2 ^ 128 - 2 ^ 104 - 10 * toRat c.gyro.noise) → s₀.FiniteOutputs) ∧
    ∀ calls x noise, (s₀.after calls).step.result = .ok (some x) →
      (c.gyroAfter (s₀.after calls).taken).noise? = some noise → noise.isFinite = true →
      ∃ rate, c.rates[(s₀.after calls).taken]? = some rate ∧
        (x.measuredRate.isFinite = true ↔ Vec3.SumsBelow overflow rate c.gyro.bias ∧
          Vec3.SumsBelow overflow (rate + c.gyro.bias) noise) := by
  have hvalid := validate_of_start h
  have hsound := Scenario.sound_of_validate hvalid
  obtain rfl := eq_initial h
  refine ⟨hsound.dt_pos, ?_, ?_, ?_⟩
  · intro hnoise
    refine ⟨inRange_of_finiteOutputs hvalid hnoise, ?_⟩
    intro hrange
    apply finiteOutputs_of hvalid hrange.dt hrange.time
    intro n rate hr
    have hmem := List.mem_of_getElem? hr
    exact (hsound.isFinite_measured_iff hnoise hmem n).mpr (hrange.rates rate hmem)
  · intro hnoise hrange
    apply finiteOutputs_of hvalid hrange.dt hrange.time
    intro n rate hr
    have hnonneg := (le_iff_toRat isFinite_zero hsound.noise_finite).mp hsound.noise_nonneg
    rw [toRat_zero] at hnonneg
    exact hsound.isFinite_measured_of_noiseWithin (by positivity) hnoise hr
      (hrange.rates rate (List.mem_of_getElem? hr))
  · intro calls x noise hx hdrawn hfin
    have hc := onCourse_after (onCourse_initial c) calls
    exact isFinite_measured_step hsound hc hx hdrawn hfin

/-- A sample rate that is positive, but too small for its reciprocal. -/
def faint : Scenario := { Scenario.standard with rateHz := 1e-40 }

/-- Rates and a bias that are numbers, but not together. -/
def saturated : Scenario :=
  { Scenario.standard with
    segments := [⟨1.0, ⟨3e38, 0.0, 0.0⟩⟩]
    gyro := { GyroModel.standard with bias := ⟨3e38, 0.0, 0.0⟩ } }

theorem standard_finite_outputs :
    start .standard = .ok (initial .standard) ∧ (initial .standard).FiniteOutputs ∧
    start faint = .ok (initial faint) ∧ ¬ (initial faint).FiniteOutputs ∧
    start saturated = .ok (initial saturated) ∧ ¬ (initial saturated).FiniteOutputs := by
  have hnoise : toRat Scenario.standard.gyro.noise = 0 := toRat_zero
  have hlength : Scenario.standard.rates.length = 2500 := by decide +kernel
  have hfaint : start faint = .ok (initial faint) := start_of_validate (by decide +kernel)
  have hsaturated : start saturated = .ok (initial saturated) :=
    start_of_validate (by decide +kernel)
  refine ⟨start_standard, ?_, hfaint, ?_, hsaturated, ?_⟩
  · apply ((finite_outputs_in_range start_standard).2.1 hnoise).mpr
    refine ⟨by decide +kernel, ?_, ?_⟩
    · rw [hlength]
      decide +kernel
    · intro rate hr
      obtain ⟨segment, hsegment, rfl⟩ := Scenario.exists_segment_of_mem hr
      revert segment
      decide +kernel
  · intro hfinite
    have hrange := ((finite_outputs_in_range hfaint).2.1 hnoise).mp hfinite
    exact absurd hrange.dt (by decide +kernel)
  · intro hfinite
    have hrange := ((finite_outputs_in_range hsaturated).2.1 hnoise).mp hfinite
    have hmem : (⟨3e38, 0.0, 0.0⟩ : Vec3 Float32) ∈ saturated.rates :=
      List.mem_iff_getElem?.mpr ⟨0, by decide +kernel⟩
    exact absurd (hrange.rates _ hmem) (by decide +kernel)

end Simulation
end Strapdown
