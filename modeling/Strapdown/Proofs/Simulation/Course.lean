import Strapdown.Simulation
import Strapdown.Proofs.Gyro
import Strapdown.Proofs.Profile
import Strapdown.Proofs.Attitude.UnitNorm

/-! Whatever is asked of a simulation, it stays on the course that its scenario prescribes. -/
namespace Strapdown

variable {c : Scenario} {s s₀ : Simulation} {rate : Vec3 Float32}
  {rs : List (Vec3 Float32)} {n : Nat}

/-- An attitude after turning at rates, one after the other, for a time step each. -/
def Quaternion.integrateAll (q : Quaternion Float32) (dt : Float32)
    (rs : List (Vec3 Float32)) : Quaternion Float32 :=
  rs.foldl (fun q rate => q.integrate rate dt) q

theorem Quaternion.integrateAll_take_succ {q : Quaternion Float32} {dt : Float32}
    (h : rs[n]? = some rate) :
    q.integrateAll dt (rs.take (n + 1)) = (q.integrateAll dt (rs.take n)).integrate rate dt := by
  rw [integrateAll, List.take_add_one, h, Option.toList_some, List.foldl_append]
  rfl

namespace Scenario

/-- The rate of every step: that of each segment, as often as the segment has steps. -/
def rates (c : Scenario) : List (Vec3 Float32) :=
  (List.zipWith (fun steps segment => List.replicate steps segment.rate)
    c.stepCounts c.segments).flatten

theorem rates_legs (c : Scenario) : Leg.rates c.legs = c.rates := by
  rw [Leg.rates, legs, rates, stepCounts, List.zipWith_map_left, List.zipWith_self,
    List.flatMap_map, ← List.flatMap_def]

theorem exists_segment_of_mem (h : rate ∈ c.rates) :
    ∃ segment ∈ c.segments, segment.rate = rate := by
  rw [← rates_legs, Leg.rates, legs, List.mem_flatMap] at h
  obtain ⟨leg, hleg, hrate⟩ := h
  obtain ⟨segment, hsegment, rfl⟩ := List.mem_map.mp hleg
  exact ⟨segment, hsegment, (List.eq_of_mem_replicate hrate).symm⟩

/-- What the gyro measures in all steps. -/
def measuredRates (c : Scenario) : List (Vec3 Float32) := (Gyro.ofModel c.gyro).measureAll c.rates

/-- The reference attitude after a number of steps. -/
def truthAfter (c : Scenario) (n : Nat) : Quaternion Float32 :=
  c.initialAttitude.toQuaternion.integrateAll c.dt (c.rates.take n)

/-- The estimated attitude after a number of steps. -/
def estimateAfter (c : Scenario) (n : Nat) : Quaternion Float32 :=
  c.initialAttitude.toQuaternion.integrateAll c.dt (c.measuredRates.take n)

/-- The sample after a number of steps, the last of which was measured so. -/
def sampleAfter (c : Scenario) (n : Nat) (measured : Vec3 Float32) : Sample where
  index := n
  time := Float32.ofNat n * c.dt
  attitudes := ⟨c.truthAfter n, c.estimateAfter n⟩
  measuredRate := measured
  drift := ((c.truthAfter n).errorTo (c.estimateAfter n)).norm

end Scenario

namespace Simulation

/-- The place of a simulation on the course of its scenario follows from the steps it has taken. -/
structure OnCourse (c : Scenario) (s : Simulation) : Prop where
  scenario_eq : s.scenario = c
  within : s.position.Within s.legs
  taken_eq : s.taken = s.position.offset s.legs
  gyro_eq : s.gyro = (Gyro.ofModel c.gyro).after (c.rates.take s.taken)
  attitudes_eq : s.attitudes = ⟨c.truthAfter s.taken, c.estimateAfter s.taken⟩

theorem OnCourse.rates_eq (h : OnCourse c s) : Leg.rates s.legs = c.rates := by
  rw [s.legs_eq, h.scenario_eq, Scenario.rates_legs]

theorem OnCourse.totalSteps_eq (h : OnCourse c s) : s.totalSteps = c.rates.length := by
  rw [totalSteps, ← Leg.length_rates, h.rates_eq]

theorem OnCourse.taken_le (h : OnCourse c s) : s.taken ≤ c.rates.length := by
  rw [h.taken_eq, ← h.totalSteps_eq]
  exact Position.offset_le h.within

theorem onCourse_initial (c : Scenario) : OnCourse c (initial c) where
  scenario_eq := rfl
  within := Position.within_start
  taken_eq := Position.offset_start.symm
  gyro_eq := rfl
  attitudes_eq := rfl

theorem start_of_validate (h : c.validate = .ok ()) : start c = .ok (initial c) := by
  rw [start, h]
  rfl

theorem validate_of_start (h : start c = .ok s₀) : c.validate = .ok () := by
  unfold start at h
  cases hv : c.validate with
  | error violation =>
    rw [hv] at h
    cases h
  | ok _ => rfl

theorem eq_initial (h : start c = .ok s₀) : s₀ = initial c := by
  rw [start_of_validate (validate_of_start h)] at h
  exact (Except.ok.inj h).symm

/-- A propagated attitude is always finite, so that no step fails. -/
theorem result_advance (s : Simulation) (p : Position) (rate : Vec3 Float32) :
    let measured := (s.gyro.measure rate).1
    let attitudes := s.attitudes.advance rate measured s.scenario.dt
    (s.advance p rate).result = .ok (some
      ⟨s.taken + 1, Float32.ofNat (s.taken + 1) * s.scenario.dt, attitudes, measured,
        attitudes.drift⟩) := by
  intro measured attitudes
  have hfin : attitudes.estimate.isFinite = true :=
    List.all_eq_true.mpr
      (Quaternion.isUnit_integrate .native s.attitudes.estimate measured _).isFinite
  simp only [advance]
  rw [if_pos hfin]

theorem next_advance (s : Simulation) (p : Position) (rate : Vec3 Float32) :
    ∃ warned, (s.advance p rate).next =
      { s with
        gyro := (s.gyro.measure rate).2
        position := ⟨p.leg, p.step + 1⟩
        taken := s.taken + 1
        attitudes := s.attitudes.advance rate (s.gyro.measure rate).1 s.scenario.dt
        warned } := by
  simp only [advance]
  split <;> exact ⟨_, rfl⟩

/-- A step settles its position and then, unless it has come to the end, advances from there. -/
theorem step_cases (s : Simulation) :
    (s.legs[(s.position.settle s.legs).leg]? = none ∧
      s.step = ⟨.ok none, [], { s with position := s.position.settle s.legs }⟩) ∨
    ∃ leg, s.legs[(s.position.settle s.legs).leg]? = some leg ∧
      s.step = s.advance (s.position.settle s.legs) leg.rate := by
  unfold step
  cases hl : s.legs[(s.position.settle s.legs).leg]? with
  | none => exact .inl ⟨rfl, by simp only [hl]⟩
  | some leg => exact .inr ⟨leg, rfl, by simp only [hl]⟩

/-- While there are rates left, a step takes the next one. -/
theorem step_of_some (h : OnCourse c s) (hr : c.rates[s.taken]? = some rate) :
    ∃ leg, s.legs[(s.position.settle s.legs).leg]? = some leg ∧ leg.rate = rate ∧
      s.step = s.advance (s.position.settle s.legs) rate := by
  rw [h.taken_eq, ← h.rates_eq, Position.rates_settle h.within] at hr
  obtain ⟨leg, hl, rfl⟩ := Option.map_eq_some_iff.mp hr
  refine ⟨leg, hl, rfl, ?_⟩
  simp only [step, hl]

/-- After the last rate, a step finds nothing to do. -/
theorem step_of_none (h : OnCourse c s) (hr : c.rates[s.taken]? = none) :
    s.step = ⟨.ok none, [], { s with position := s.position.settle s.legs }⟩ := by
  rw [h.taken_eq, ← h.rates_eq, Position.rates_settle h.within, Option.map_eq_none_iff] at hr
  simp only [step, hr]

theorem measuredRates_getElem? (h : OnCourse c s) (hr : c.rates[s.taken]? = some rate) :
    c.measuredRates[s.taken]? = some (s.gyro.measure rate).1 := by
  rw [h.gyro_eq]
  exact Gyro.measureAll_getElem? hr

theorem advance_attitudes (h : OnCourse c s) (hr : c.rates[s.taken]? = some rate) :
    s.attitudes.advance rate (s.gyro.measure rate).1 s.scenario.dt =
      ⟨c.truthAfter (s.taken + 1), c.estimateAfter (s.taken + 1)⟩ := by
  rw [Propagation.advance, Scenario.truthAfter, Scenario.estimateAfter,
    Quaternion.integrateAll_take_succ hr,
    Quaternion.integrateAll_take_succ (measuredRates_getElem? h hr), h.attitudes_eq, h.scenario_eq]
  rfl

theorem onCourse_step (h : OnCourse c s) : OnCourse c s.step.next := by
  obtain ⟨hw, ho⟩ := Position.within_settle h.within
  cases hr : c.rates[s.taken]? with
  | none =>
    rw [step_of_none h hr]
    exact ⟨h.scenario_eq, hw, h.taken_eq.trans ho.symm, h.gyro_eq, h.attitudes_eq⟩
  | some rate =>
    obtain ⟨leg, hl, -, hs⟩ := step_of_some h hr
    obtain ⟨warned, hn⟩ := next_advance s (s.position.settle s.legs) rate
    rw [hs, hn]
    refine ⟨h.scenario_eq, Position.within_step hl (Position.step_lt_of_settle hl), ?_, ?_,
      advance_attitudes h hr⟩
    · rw [h.taken_eq, ← ho]
      exact Nat.add_assoc _ _ _
    · rw [h.gyro_eq]
      exact (Gyro.after_take_succ hr).symm

/-- A step takes the sample that the scenario prescribes for its index. -/
theorem result_step (h : OnCourse c s) (hr : c.rates[s.taken]? = some rate) :
    s.step.next.taken = s.taken + 1 ∧ s.step.result =
      .ok (some (c.sampleAfter (s.taken + 1) (s.gyro.measure rate).1)) := by
  obtain ⟨leg, -, -, hs⟩ := step_of_some h hr
  obtain ⟨warned, hn⟩ := next_advance s (s.position.settle s.legs) rate
  constructor
  · rw [hs, hn]
  · rw [hs, result_advance, advance_attitudes h hr, h.scenario_eq]
    rfl

/-- What every step keeps, steps keep that are tallied. -/
theorem kept_tally {P : Simulation → Prop} (hstep : ∀ s : Simulation, P s → P s.step.next)
    (h : P s) (t : Tally) : P (s.tally n t).2.2 := by
  induction n generalizing s t with
  | zero => exact h
  | succ n ih =>
    rw [tally]
    split
    · exact hstep s h
    · exact hstep s h
    · exact ih (hstep s h) _

theorem next_run (s : Simulation) :
    s.run.next = (s.tally (s.totalSteps - s.taken + 1) .empty).2.2 := by
  simp only [run]
  split <;> rfl

/-- What may be asked of a simulation. -/
inductive Call
  | step
  | run
deriving DecidableEq

def perform (s : Simulation) : Call → Simulation
  | .step => s.step.next
  | .run => s.run.next

/-- The state after calls, one after the other. -/
def after (s : Simulation) (calls : List Call) : Simulation := calls.foldl perform s

theorem after_concat (s : Simulation) (calls : List Call) (call : Call) :
    s.after (calls ++ [call]) = (s.after calls).perform call := List.foldl_concat _ _ _ _

/-- The state after a number of steps. -/
def stepped (s : Simulation) (n : Nat) : Simulation := s.after (.replicate n .step)

/-- What every step keeps, all calls keep. -/
theorem kept_after {P : Simulation → Prop} (hstep : ∀ s : Simulation, P s → P s.step.next)
    (h : P s) (calls : List Call) : P (s.after calls) := by
  induction calls generalizing s with
  | nil => exact h
  | cons call calls ih =>
    refine ih ?_
    cases call with
    | step => exact hstep s h
    | run =>
      change P s.run.next
      rw [next_run]
      exact kept_tally hstep h _

theorem onCourse_after (h : OnCourse c s) (calls : List Call) : OnCourse c (s.after calls) :=
  kept_after (fun _ => onCourse_step) h calls

theorem stepped_succ (s : Simulation) (n : Nat) : s.stepped (n + 1) = (s.stepped n).step.next := by
  rw [stepped, List.replicate_succ', after_concat]
  rfl

theorem onCourse_stepped (c : Scenario) (n : Nat) : OnCourse c ((initial c).stepped n) :=
  onCourse_after (onCourse_initial c) _

/-- There are as many steps as there are rates. -/
theorem taken_step (h : OnCourse c s) (hle : s.taken ≤ c.rates.length) :
    s.step.next.taken = min (s.taken + 1) c.rates.length := by
  cases hr : c.rates[s.taken]? with
  | none =>
    rw [step_of_none h hr]
    have := List.getElem?_eq_none_iff.mp hr
    change s.taken = _
    omega
  | some rate =>
    obtain ⟨hlt, -⟩ := List.getElem?_eq_some_iff.mp hr
    rw [(result_step h hr).1]
    omega

theorem taken_stepped (c : Scenario) (n : Nat) :
    ((initial c).stepped n).taken = min n c.rates.length := by
  induction n with
  | zero => exact (Nat.zero_min _).symm
  | succ n ih =>
    rw [stepped_succ, taken_step (onCourse_stepped c n) (by omega)]
    omega

/-- Step by step, a simulation flies the rates of its segments, and stays put after the last one. -/
theorem stepped_follows_rates (h : start c = .ok s₀) (n : Nat) :
    (n < c.rates.length → ∃ sample, (s₀.stepped n).step.result = .ok (some sample) ∧
      sample.index = n + 1 ∧
      sample.time = Float32.ofNat (n + 1) * c.dt ∧
      c.measuredRates[n]? = some sample.measuredRate ∧
      sample.attitudes.truth = c.truthAfter (n + 1) ∧
      sample.attitudes.estimate = c.estimateAfter (n + 1) ∧
      sample.drift = (sample.attitudes.truth.errorTo sample.attitudes.estimate).norm) ∧
    (c.rates.length ≤ n → (s₀.stepped n).step.result = .ok none ∧
      (s₀.stepped n).step.next.attitudes = (s₀.stepped n).attitudes ∧
      (s₀.stepped n).step.next.taken = (s₀.stepped n).taken ∧
      (s₀.stepped n).step.next.gyro = (s₀.stepped n).gyro) := by
  obtain rfl := eq_initial h
  have ht := taken_stepped c n
  have hc := onCourse_stepped c n
  generalize (initial c).stepped n = s at ht hc ⊢
  constructor
  · intro hn
    rw [Nat.min_eq_left hn.le] at ht
    subst ht
    have hr := List.getElem?_eq_getElem hn
    exact ⟨_, (result_step hc hr).2, rfl, rfl, measuredRates_getElem? hc hr, rfl, rfl, rfl⟩
  · intro hn
    rw [Nat.min_eq_right hn] at ht
    rw [step_of_none hc (by simp [ht])]
    exact ⟨rfl, rfl, rfl, rfl⟩

theorem start_standard : start .standard = .ok (initial .standard) :=
  start_of_validate (by decide +kernel)

theorem standard_follows_rates :
    start .standard = .ok (initial .standard) ∧
    (∃ sample, ((initial .standard).stepped 0).step.result = .ok (some sample) ∧
      sample.measuredRate = ⟨0.0, 0.0, Numeric.inRadians 90.0⟩) ∧
    ((initial .standard).stepped 2500).step.result = .ok none := by
  have hlen : Scenario.standard.rates.length = 2500 := by decide +kernel
  have hfirst : Scenario.standard.measuredRates[0]? =
    some ⟨0.0, 0.0, Numeric.inRadians 90.0⟩ := by decide +kernel
  refine ⟨start_standard, ?_, ((stepped_follows_rates start_standard 2500).2 hlen.le).1⟩
  obtain ⟨sample, hs, -, -, hm, -⟩ := (stepped_follows_rates start_standard 0).1 (by omega)
  exact ⟨sample, hs, Option.some.inj (hm.symm.trans hfirst)⟩

end Simulation
end Strapdown
