import Strapdown.Gyro
import Strapdown.Profile
import Strapdown.Scenario.Loading
import Strapdown.Simulation.Event

/-!
Flying a scenario: at every step the true rate of the current segment turns the reference attitude,
and what the gyro measures turns the estimate. `step` takes one step and `run` all that are left.
-/

namespace Strapdown

/-- The rate profile of a scenario. -/
def Scenario.legs (s : Scenario) : List (Leg Float32) :=
  s.segments.map fun segment => ⟨segment.rate, Binary.toCount (s.samples segment)⟩

/-- The state of a simulation. -/
structure Simulation where
  scenario : Scenario
  legs : List (Leg Float32)
  legs_eq : legs = scenario.legs
  gyro : Gyro
  position : Position
  /-- How many steps have been taken. -/
  taken : Nat
  attitudes : Propagation Float32
  /-- Whether the drift has gone beyond its limit before. -/
  warned : Bool

namespace Simulation

/-- The state of a scenario before its first step. -/
def initial (scenario : Scenario) : Simulation where
  scenario
  legs := scenario.legs
  legs_eq := rfl
  gyro := .ofModel scenario.gyro
  position := .start
  taken := 0
  attitudes := .start scenario.initialAttitude.toQuaternion
  warned := false

/-- Starts a scenario that can be flown. -/
def start (scenario : Scenario) : Except Violation Simulation := do
  scenario.validate
  return initial scenario

/-- How a violation is reported when a simulation is to start. -/
def startMessage (violation : Violation) : String :=
  s!"configuration error: {(LoadError.invalid violation).message}"

def totalSteps (s : Simulation) : Nat := Leg.totalSteps s.legs

/-- Whether the last leg has been left behind, which happens when a step finds it complete. -/
def isFinished (s : Simulation) : Bool := s.legs.length ≤ s.position.leg

/-- What ends a simulation before its time. -/
inductive Failure
  /-- The estimate is no attitude any more after a step. -/
  | nonFinite (step : Nat)
deriving DecidableEq

def Failure.message : Failure → String
  | nonFinite step => s!"propagated attitude became non-finite at step {step}"

/-- What a step gives: no sample when all steps have been taken. -/
structure Step where
  result : Except Failure (Option Sample)
  events : List Event
  next : Simulation

/-- The sample of a step that has taken place. -/
def Step.sample (s : Step) : Option Sample :=
  match s.result with
  | .ok sample => sample
  | .error _ => none

/-- The warning for a drift beyond the limit, unless there was one before. -/
def warning? (s : Simulation) (index : Nat) (drift : Float32) : Option Event :=
  if !s.warned && drift > Numeric.inRadians s.scenario.telemetry.driftLimit then
    some (.driftExceeded s.scenario.telemetry.driftLimit index (Numeric.inDegrees drift))
  else none

/-- Takes a step at a rate, from a position. -/
def advance (s : Simulation) (position : Position) (rate : Vec3 Float32) : Step :=
  let dt := s.scenario.dt
  let (measured, gyro) := s.gyro.measure rate
  let attitudes := s.attitudes.advance rate measured dt
  let index := s.taken + 1
  let moved : Simulation :=
    { s with gyro, position := ⟨position.leg, position.step + 1⟩, taken := index, attitudes }
  if attitudes.estimate.isFinite then
    let drift := attitudes.drift
    let warning := s.warning? index drift
    { result := .ok (some ⟨index, Float32.ofNat index * dt, attitudes, measured, drift⟩)
      events := warning.toList
      next := { moved with warned := s.warned || warning.isSome } }
  else ⟨.error (.nonFinite index), [], moved⟩

/-- Takes the next step, if there is one. -/
def step (s : Simulation) : Step :=
  let position := s.position.settle s.legs
  match s.legs[position.leg]? with
  | none => ⟨.ok none, [], { s with position }⟩
  | some leg => s.advance position leg.rate

/-- Takes up to so many steps, and gives the last sample with all events. -/
def steps : Nat → Simulation → Step
  | 0, s => ⟨.ok none, [], s⟩
  | n + 1, s =>
    let first := s.step
    match first.sample, n with
    | none, _ | some _, 0 => first
    | some _, n + 1 =>
      let last := steps (n + 1) first.next
      { last with events := first.events ++ last.events }

/-- What is known of a run so far; lists hold the latest entry first. -/
structure Tally where
  duration : Float32
  finalDrift : Float32
  maxDrift : Float32
  telemetry : List TelemetryRecord
  events : List Event

namespace Tally

def empty : Tally := ⟨0.0, 0.0, 0.0, [], []⟩

/-- Counts a step. Every `decimation`-th one is kept as a record. -/
def add (decimation : Nat) (t : Tally) (sample : Sample) (events : List Event) : Tally :=
  let records :=
    if sample.index % decimation = 0 then [TelemetryRecord.ofSample sample] else []
  { duration := sample.time
    finalDrift := sample.drift
    maxDrift := Numeric.largerFloat t.maxDrift sample.drift
    telemetry := records ++ t.telemetry
    events := records.map Event.telemetry ++ events.reverse ++ t.events }

end Tally

/-- Takes steps as long as there are any, at most so many, and tells whether one failed. -/
def tally : Nat → Simulation → Tally → Option Failure × Tally × Simulation
  | 0, s, t => (none, t, s)
  | n + 1, s, t =>
    let step := s.step
    match step.result with
    | .error failure => (some failure, t, step.next)
    | .ok none => (none, t, step.next)
    | .ok (some sample) =>
      tally n step.next (t.add s.scenario.telemetry.decimation.toNat sample step.events)

/-- The outcome of a run. The number of steps counts all that were ever taken. -/
structure Report where
  steps : Nat
  duration : Float32
  attitudes : Propagation Float32
  finalDrift : Float32
  maxDrift : Float32
  telemetry : List TelemetryRecord

/-- The report of a tally, with the state that it led to. -/
def Tally.report (t : Tally) (s : Simulation) : Report where
  steps := s.taken
  duration := t.duration
  attitudes := s.attitudes
  finalDrift := t.finalDrift
  maxDrift := t.maxDrift
  telemetry := t.telemetry.reverse

/-- What a run gives, with its events and the state after it. -/
structure Run where
  result : Except Failure Report
  events : List Event
  next : Simulation

/-- The report of a run. One that failed has nothing to report but the state after it. -/
def Run.report (r : Run) : Report :=
  match r.result with
  | .ok report => report
  | .error _ => Tally.empty.report r.next

/-- Takes all steps that are left. -/
def run (s : Simulation) : Run :=
  let (failure, t, next) := s.tally (s.totalSteps - s.taken + 1) .empty
  let started := Event.started s.scenario.rateHz s.totalSteps s.scenario.segments.length
  match failure with
  | some failure => ⟨.error failure, started :: t.events.reverse, next⟩
  | none =>
    let finished :=
      Event.finished next.taken (Numeric.inDegrees t.finalDrift) (Numeric.inDegrees t.maxDrift)
    ⟨.ok (t.report next), started :: t.events.reverse ++ [finished], next⟩

end Simulation
end Strapdown
