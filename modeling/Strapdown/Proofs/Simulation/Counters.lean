import Strapdown.Proofs.Scenario.StepCounts
import Strapdown.Proofs.Simulation.Resumption

/-!
The counters of a simulation. They always name one place among the steps of the scenario, so that
no index is out of range and no count outgrows a machine word: a simulation that checks all of them,
and gives up at the first failure, never does.
-/
namespace Strapdown
open Scenario (validate_eq_ok)

variable {c : Scenario} {s s₀ : Simulation} {legs : List (Leg Float32)} {leg : Leg Float32}
  {p : Position} {counts : List Nat} {n d : Nat}

namespace Simulation

/-- How many steps each segment has. -/
def legSteps (s : Simulation) : List Nat := s.legs.map Leg.steps

/-- The counters name one place among the steps of a scenario that is not too long. -/
structure Consistent (s : Simulation) : Prop where
  legSteps_eq : s.legSteps = s.scenario.stepCounts
  length_legSteps : s.legSteps.length = s.scenario.segments.length
  leg_le : s.position.leg ≤ s.legSteps.length
  step_le : ∀ count, s.legSteps[s.position.leg]? = some count → s.position.step ≤ count
  step_eq_zero : s.position.leg = s.legSteps.length → s.position.step = 0
  taken_eq : s.taken = (s.legSteps.take s.position.leg).sum + s.position.step
  taken_le : s.taken ≤ s.totalSteps
  totalSteps_le : s.totalSteps ≤ maxSteps

theorem legSteps_eq (s : Simulation) : s.legSteps = s.scenario.stepCounts := by
  rw [legSteps, s.legs_eq, Scenario.legs, List.map_map]
  rfl

theorem totalSteps_eq_sum (s : Simulation) : s.totalSteps = s.legSteps.sum :=
  Leg.totalSteps_eq_sum s.legs

theorem within_iff : p.Within legs ↔
    (∀ count, (legs.map Leg.steps)[p.leg]? = some count → p.step ≤ count) ∧
      (legs.length ≤ p.leg → p.step = 0) := by
  unfold Position.Within
  cases hl : legs[p.leg]? with
  | some leg =>
    have hlt := (List.getElem?_eq_some_iff.mp hl).1
    simp only [List.getElem?_map, hl, Option.map_some, Option.some.injEq, forall_eq']
    exact (and_iff_left fun hle => absurd hle (not_le.mpr hlt)).symm
  | none =>
    have hle := List.getElem?_eq_none_iff.mp hl
    simp [hle]

theorem offset_eq (p : Position) :
    p.offset legs = ((legs.map Leg.steps).take p.leg).sum + p.step := by
  rw [Position.offset, Leg.totalSteps_eq_sum, List.map_take]

/-- Consistency is about the position, the steps taken and the length of the scenario only. -/
theorem consistent_iff : s.Consistent ↔ s.position.leg ≤ s.legs.length ∧
    s.position.Within s.legs ∧ s.taken = s.position.offset s.legs ∧ s.totalSteps ≤ maxSteps := by
  have hlength : s.legSteps.length = s.legs.length := List.length_map _
  constructor
  · intro h
    have hleg : s.position.leg ≤ s.legs.length := hlength ▸ h.leg_le
    refine ⟨hleg, within_iff.mpr ⟨h.step_le, ?_⟩, ?_, h.totalSteps_le⟩
    · intro hge
      exact h.step_eq_zero (by omega)
    · rw [offset_eq]
      exact h.taken_eq
  · rintro ⟨hleg, hwithin, htaken, htotal⟩
    obtain ⟨hstep, hzero⟩ := within_iff.mp hwithin
    refine ⟨s.legSteps_eq, ?_, hlength ▸ hleg, hstep, ?_, ?_, ?_, htotal⟩
    · rw [legSteps_eq, Scenario.stepCounts, List.length_map]
    · intro heq
      exact hzero (by omega)
    · rw [htaken, offset_eq]
      rfl
    · rw [htaken]
      exact Position.offset_le hwithin

theorem consistent_step (h : s.Consistent) : s.step.next.Consistent := by
  obtain ⟨hleg, hwithin, htaken, htotal⟩ := consistent_iff.mp h
  obtain ⟨hwithin', hoffset⟩ := Position.within_settle hwithin
  have hleg' := Position.settle_leg_le hleg
  rcases s.step_cases with ⟨-, hs⟩ | ⟨leg, hl, hs⟩
  · rw [hs]
    exact consistent_iff.mpr ⟨hleg', hwithin', htaken.trans hoffset.symm, htotal⟩
  · obtain ⟨warned, hn⟩ := s.next_advance (s.position.settle s.legs) leg.rate
    have hlt := Position.step_lt_of_settle hl
    rw [hs, hn]
    refine consistent_iff.mpr ⟨hleg', Position.within_step hl hlt, ?_, htotal⟩
    change s.taken + 1 = _
    rw [htaken, ← hoffset]
    exact Nat.add_assoc _ _ _

theorem consistent_initial (h : c.validate = .ok ()) : (initial c).Consistent := by
  have hcounted := Scenario.counted_of_validate h
  have htotal := hcounted.totalSteps_initial.trans_le hcounted.sum_le
  refine consistent_iff.mpr ⟨Nat.zero_le _, Position.within_start, ?_, by exact_mod_cast htotal⟩
  exact Position.offset_start.symm

end Simulation

/-! ### Checked counting -/

/-- A number that fits into a machine word. -/
def word? (n : Nat) : Option Nat := if n < UInt64.size then some n else none

/-- A sum that stays in a machine word from the first term to the last. -/
def sum? (counts : List Nat) : Option Nat := counts.foldlM (fun sum count => word? (sum + count)) 0

/-- A remainder by a number that can be divided by. -/
def remainder? (n d : Nat) : Option Nat := if d = 0 then none else some (n % d)

/-- Moves on from complete segments, as long as the numbers of the segments fit. -/
def Position.settle? (counts : List Nat) (p : Position) : Option Position :=
  if p.leg < counts.length then
    match counts[p.leg]? with
    | none => none
    | some count =>
      if count ≤ p.step then
        if p.leg + 1 < UInt64.size then settle? counts ⟨p.leg + 1, 0⟩ else none
      else some p
  else some p
termination_by counts.length - p.leg

namespace Simulation

/-- The steps of all segments, added up with checks. -/
def totalSteps? (s : Simulation) : Option Nat := sum? s.legSteps

/-- A step that looks its rate up among the segments, with checks. -/
def step? (s : Simulation) : Option Step := do
  let position ← s.position.settle? s.legSteps
  if s.legSteps.length ≤ position.leg then return ⟨.ok none, [], { s with position }⟩
  let segment ← s.scenario.segments[position.leg]?
  let _ ← word? (position.step + 1)
  let _ ← word? (s.taken + 1)
  return s.advance position segment.rate

/-- Steps that are tallied, with checks. -/
def tally? : Nat → Simulation → Tally → Option (Option Failure × Tally × Simulation)
  | 0, s, t => some (none, t, s)
  | n + 1, s, t => do
    let step ← s.step?
    match step.result with
    | .error failure => return (some failure, t, step.next)
    | .ok none => return (none, t, step.next)
    | .ok (some sample) =>
      let decimation := s.scenario.telemetry.decimation.toNat
      let _ ← remainder? sample.index decimation
      tally? n step.next (t.add decimation sample step.events)

/-- A run, with checks. -/
def run? (s : Simulation) : Option Run := do
  let total ← s.totalSteps?
  let (failure, t, next) ← s.tally? (total - s.taken + 1) .empty
  let started := Event.started s.scenario.rateHz total s.scenario.segments.length
  match failure with
  | some failure => return ⟨.error failure, started :: t.events.reverse, next⟩
  | none =>
    let finished :=
      Event.finished next.taken (Numeric.inDegrees t.finalDrift) (Numeric.inDegrees t.maxDrift)
    return ⟨.ok (t.report next), started :: t.events.reverse ++ [finished], next⟩

/-- A call, or a look at the status of a simulation. -/
inductive Interaction
  | call (call : Call)
  | status

def Interaction.call? : Interaction → Option Call
  | .call asked => some asked
  | .status => none

/-- The state after an interaction, with checks. The status tells how many steps there are, and
changes nothing. -/
def interact? (s : Simulation) : Interaction → Option Simulation
  | .call .step => s.step?.map Step.next
  | .call .run => s.run?.map Run.next
  | .status => s.totalSteps?.map fun _ => s

/-- The state after interactions, with checks. -/
def after? (s : Simulation) (interactions : List Interaction) : Option Simulation :=
  interactions.foldlM interact? s

end Simulation

theorem word?_eq (h : n < UInt64.size) : word? n = some n := if_pos h

theorem remainder?_eq (h : d ≠ 0) : remainder? n d = some (n % d) := if_neg h

theorem foldlM_word? (h : n + counts.sum < UInt64.size) :
    counts.foldlM (fun sum count => word? (sum + count)) n = some (n + counts.sum) := by
  induction counts generalizing n with
  | nil => rfl
  | cons count counts ih =>
    rw [List.sum_cons, ← Nat.add_assoc] at h ⊢
    rw [List.foldlM_cons, word?_eq (by omega)]
    exact ih h

theorem Position.settle?_eq (h : legs.length < UInt64.size) (p : Position) :
    p.settle? (legs.map Leg.steps) = some (p.settle legs) := by
  induction p using settle.induct legs with
  | case1 p hn =>
    have hle := List.getElem?_eq_none_iff.mp hn
    rw [settle?, if_neg (by simpa using hle), settle_of_none hn]
  | case2 p leg hl hs ih =>
    have hlt := (List.getElem?_eq_some_iff.mp hl).1
    rw [settle?, if_pos (by simpa using hlt), List.getElem?_map, hl, settle_of_some hl, if_pos hs]
    simp only [Option.map_some]
    rw [if_pos hs, if_pos (by omega)]
    exact ih
  | case3 p leg hl hs =>
    have hlt := (List.getElem?_eq_some_iff.mp hl).1
    rw [settle?, if_pos (by simpa using hlt), List.getElem?_map, hl, settle_of_some hl, if_neg hs]
    simp only [Option.map_some]
    rw [if_neg hs]

namespace Simulation

/-- Consistent counters, segments that can be numbered, and a decimation to divide by. -/
structure Guarded (s : Simulation) : Prop extends s.Consistent where
  segments_lt : s.scenario.segments.length < UInt64.size
  decimation_ne_zero : s.scenario.telemetry.decimation ≠ 0

theorem guarded_step (h : s.Guarded) : s.step.next.Guarded := by
  refine ⟨consistent_step h.toConsistent, ?_, ?_⟩ <;> rw [scenario_step]
  · exact h.segments_lt
  · exact h.decimation_ne_zero

theorem totalSteps?_eq (h : s.Consistent) : s.totalSteps? = some s.totalSteps := by
  have hmax : maxSteps < UInt64.size := by decide
  have hle := h.totalSteps_le
  rw [totalSteps_eq_sum] at hle ⊢
  rw [totalSteps?, sum?, foldlM_word? (by omega), Nat.zero_add]

/-- A leg takes its rate from the segment of its number. -/
theorem exists_segment (h : s.legs[n]? = some leg) :
    ∃ segment, s.scenario.segments[n]? = some segment ∧ segment.rate = leg.rate := by
  rw [s.legs_eq, Scenario.legs, List.getElem?_map] at h
  obtain ⟨segment, hsegment, rfl⟩ := Option.map_eq_some_iff.mp h
  exact ⟨segment, hsegment, rfl⟩

theorem step?_eq (h : s.Guarded) : s.step? = some s.step := by
  obtain ⟨-, hwithin, htaken, -⟩ := consistent_iff.mp h.toConsistent
  obtain ⟨-, hoffset⟩ := Position.within_settle hwithin
  have hlength : s.legSteps.length = s.legs.length := List.length_map _
  have hsettle : s.position.settle? s.legSteps = some (s.position.settle s.legs) := by
    refine Position.settle?_eq ?_ _
    rw [← hlength, h.length_legSteps]
    exact h.segments_lt
  have hmax : maxSteps < UInt64.size - 1 := by decide
  have htotal := h.taken_le.trans h.totalSteps_le
  rcases s.step_cases with ⟨hl, hs⟩ | ⟨leg, hl, hs⟩
  · have hle := List.getElem?_eq_none_iff.mp hl
    rw [step?, hsettle, hs]
    simp [hlength, hle]
  · have hlt := (List.getElem?_eq_some_iff.mp hl).1
    obtain ⟨segment, hsegment, hrate⟩ := exists_segment hl
    have hle : (s.position.settle s.legs).step ≤ s.taken := by
      rw [htaken, ← hoffset]
      exact Nat.le_add_left _ _
    have hstep : word? ((s.position.settle s.legs).step + 1) = some _ := word?_eq (by omega)
    have hnext : word? (s.taken + 1) = some _ := word?_eq (by omega)
    rw [step?, hsettle, hs]
    simp [hlength, not_le.mpr hlt, hsegment, hrate, hstep, hnext]

theorem tally?_eq (h : s.Guarded) (t : Tally) : s.tally? n t = some (s.tally n t) := by
  induction n generalizing s t with
  | zero => rfl
  | succ n ih =>
    rw [tally?, step?_eq h, tally]
    simp only [Option.bind_eq_bind, Option.bind_some]
    cases s.step.result with
    | error failure => rfl
    | ok result =>
      cases result with
      | none => rfl
      | some sample =>
        have hd : s.scenario.telemetry.decimation.toNat ≠ 0 := fun hzero =>
          h.decimation_ne_zero (UInt64.toNat_inj.mp hzero)
        simp only [remainder?_eq hd, Option.bind_some]
        exact ih (guarded_step h) _

theorem run?_eq (h : s.Guarded) : s.run? = some s.run := by
  unfold run? run
  simp only [totalSteps?_eq h.toConsistent, tally?_eq h, Option.bind_eq_bind, Option.bind_some]
  generalize s.tally (s.totalSteps - s.taken + 1) .empty = outcome
  obtain ⟨failure, t, next⟩ := outcome
  cases failure <;> rfl

theorem interact?_eq (h : s.Guarded) (interaction : Interaction) :
    s.interact? interaction = some (s.after interaction.call?.toList) := by
  cases interaction with
  | call call =>
    cases call with
    | step => exact congrArg (Option.map Step.next) (step?_eq h)
    | run => exact congrArg (Option.map Run.next) (run?_eq h)
  | status => exact congrArg (Option.map fun _ => s) (totalSteps?_eq h.toConsistent)

theorem guarded_after (h : s.Guarded) (calls : List Call) : (s.after calls).Guarded :=
  kept_after (fun _ => guarded_step) h calls

theorem after?_eq (h : s.Guarded) (interactions : List Interaction) :
    s.after? interactions = some (s.after (interactions.filterMap Interaction.call?)) := by
  induction interactions generalizing s with
  | nil => rfl
  | cons interaction interactions ih =>
    have hnext := ih (guarded_after h interaction.call?.toList)
    rw [after?, List.foldlM_cons, interact?_eq h]
    refine hnext.trans ?_
    cases interaction <;> rfl

/-- Whatever is asked of a simulation, its counters stay consistent; and if the segments can be
numbered at all, as those in a memory can, no check of an index, a sum or a divisor ever fails. -/
theorem counters_stay_in_range (h : start c = .ok s₀) :
    (∀ calls, (s₀.after calls).scenario = c ∧ (s₀.after calls).Consistent) ∧
    (c.segments.length < UInt64.size → ∀ interactions,
      s₀.after? interactions = some (s₀.after (interactions.filterMap Interaction.call?)) ∧
      ∀ s, s₀.after? interactions = some s →
        s.step? = some s.step ∧ s.run? = some s.run ∧ s.totalSteps? = some s.totalSteps) := by
  have hvalid := validate_of_start h
  obtain rfl := eq_initial h
  have hinitial := consistent_initial hvalid
  constructor
  · intro calls
    exact ⟨(onCourse_after (onCourse_initial c) calls).scenario_eq,
      kept_after (fun _ => consistent_step) hinitial calls⟩
  · intro hlt interactions
    have hguarded : (initial c).Guarded :=
      ⟨hinitial, hlt, (Scenario.sound_of_validate hvalid).decimation_ne_zero⟩
    have hafter := after?_eq hguarded interactions
    refine ⟨hafter, ?_⟩
    intro s hs
    obtain rfl := Option.some.inj (hafter.symm.trans hs)
    have hs := guarded_after hguarded (interactions.filterMap Interaction.call?)
    exact ⟨step?_eq hs, run?_eq hs, totalSteps?_eq hs.toConsistent⟩

/-- Segments without steps at both ends and in between. -/
def gaps : Scenario where
  rateHz := 10.0
  initialAttitude := .zero
  segments := [⟨0.0, Vec3.zero⟩, ⟨0.2, ⟨0.0, 0.0, 1.0⟩⟩, ⟨0.01, Vec3.zero⟩, ⟨0.1, Vec3.zero⟩,
    ⟨0.0, Vec3.zero⟩]
  gyro := .standard
  telemetry := .standard

theorem gaps_stay_in_range :
    start gaps = .ok (initial gaps) ∧ gaps.segments.length < UInt64.size ∧
    ((initial gaps).after [.step, .step, .step]).Consistent ∧
    (initial gaps).after? [.status, .call .step, .call .run, .call .step, .status] =
      some ((initial gaps).after [.step, .run, .step]) ∧
    ((initial gaps).after [.step, .run, .step]).step? =
      some ((initial gaps).after [.step, .run, .step]).step := by
  have hstart : start gaps = .ok (initial gaps) := start_of_validate (by decide +kernel)
  have hlt : gaps.segments.length < UInt64.size := by decide
  obtain ⟨hconsistent, hguarded⟩ := counters_stay_in_range hstart
  obtain ⟨hafter, hsteps⟩ :=
    hguarded hlt [.status, .call .step, .call .run, .call .step, .status]
  exact ⟨hstart, hlt, (hconsistent _).2, hafter, (hsteps _ hafter).1⟩

end Simulation
end Strapdown
