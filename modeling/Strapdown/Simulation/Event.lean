import Strapdown.Decimal.Style
import Strapdown.Simulation.Telemetry

/-! The events that a simulation logs. -/

namespace Strapdown

/-- How severe an event is, from the most severe on. -/
inductive Level
  | warn
  | info
  | debug
deriving DecidableEq

def Level.rank : Level → Nat
  | warn => 0
  | info => 1
  | debug => 2

inductive Event
  | started (rateHz : Float32) (steps segments : Nat)
  /-- The drift, in degrees, went beyond the limit of the scenario for the first time. -/
  | driftExceeded (limit : Float32) (step : Nat) (drift : Float32)
  | telemetry (record : TelemetryRecord)
  /-- The end of a run, with its drifts in degrees. -/
  | finished (steps : Nat) (finalDrift maxDrift : Float32)
deriving DecidableEq

namespace Event

def level : Event → Level
  | started .. | finished .. => .info
  | driftExceeded .. => .warn
  | telemetry .. => .debug

def message : Event → String
  | started .. => "starting gyro propagation"
  | driftExceeded limit .. => s!"attitude drift exceeded {Decimal.fixedPlaces 2 limit} deg"
  | telemetry .. => "telemetry"
  | finished .. => "gyro propagation finished"

/-- What a field of an event holds. -/
inductive Value
  | number (x : Float32)
  | count (n : Nat)

/-- The named values of an event. -/
def fields : Event → List (String × Value)
  | started rateHz steps segments =>
    [("rate_hz", .number rateHz), ("steps", .count steps), ("segments", .count segments)]
  | driftExceeded _ step drift => [("step", .count step), ("drift_deg", .number drift)]
  | telemetry record =>
    [("time", .number record.time),
     ("roll", .number record.attitude.roll),
     ("pitch", .number record.attitude.pitch),
     ("yaw", .number record.attitude.yaw),
     ("drift_deg", .number record.drift)]
  | finished steps finalDrift maxDrift =>
    [("steps", .count steps),
     ("final_drift_deg", .number finalDrift),
     ("max_drift_deg", .number maxDrift)]

/-- The events of a level or a more severe one. -/
def upTo (level : Level) (events : List Event) : List Event :=
  events.filter fun e => e.level.rank ≤ level.rank

end Event
end Strapdown
