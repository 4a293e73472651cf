import Strapdown.Decimal.Style
import Strapdown.Scenario

/-! Which scenarios can be flown. The checks go in a fixed order and the first violation counts. -/

namespace Strapdown
open Decimal (Style)

/-- The most steps that a scenario may take. -/
def maxSteps : Nat := 100000000

/-- What keeps a scenario from being flown. -/
inductive Violation
  | rate (value : Float32)
  | noSegments
  | duration (segment : Nat) (value : Float32)
  | angularVelocity (segment : Nat)
  | totalDuration
  | segmentSteps (segment : Nat) (steps : Float32)
  | totalSteps
  | noise (value : Float32)
  | bias
  | decimation
deriving DecidableEq

def Violation.message : Violation → String
  | rate value => s!"rate_hz must be positive, got {Style.plain.write value}"
  | noSegments => "at least one rate segment is required"
  | duration segment value => s!"segment {segment} has invalid duration {Style.plain.write value}"
  | angularVelocity segment => s!"segment {segment} has a non-finite angular velocity"
  | totalDuration => "total duration must be positive"
  | segmentSteps segment steps =>
    s!"segment {segment} needs {Style.plain.write steps} steps, limit is {maxSteps}"
  | totalSteps => s!"scenario exceeds {maxSteps} steps"
  | noise value => s!"gyro noise_std must be non-negative, got {Style.plain.write value}"
  | bias => "gyro bias must be finite"
  | decimation => "telemetry decimation must be at least 1"

namespace Scenario

/-- Fails with a violation unless a condition holds. -/
def require (condition : Bool) (violation : Violation) : Except Violation Unit :=
  if condition then .ok () else .error violation

/-- Checks the segments from a position on, each by itself. -/
def checkSegments : Nat → List Segment → Except Violation Unit
  | _, [] => .ok ()
  | i, segment :: segments => do
    require (segment.duration.isFinite && segment.duration ≥ 0.0) (.duration i segment.duration)
    require segment.rate.isFinite (.angularVelocity i)
    checkSegments (i + 1) segments

/-- Checks the steps of the segments from a position on, after so many steps before them. -/
def checkSteps (s : Scenario) : Nat → Nat → List Segment → Except Violation Unit
  | _, _, [] => .ok ()
  | i, before, segment :: segments => do
    let steps := Binary.roundWhole (s.samples segment)
    require (steps.isFinite && !(steps > Float32.ofNat maxSteps)) (.segmentSteps i steps)
    let total := before + Binary.toCount (s.samples segment)
    require (total ≤ maxSteps) .totalSteps
    checkSteps s (i + 1) total segments

/-- Accepts the scenarios that can be flown. -/
def validate (s : Scenario) : Except Violation Unit := do
  require (s.rateHz.isFinite && s.rateHz > 0.0) (.rate s.rateHz)
  require (!s.segments.isEmpty) .noSegments
  checkSegments 0 s.segments
  require (!(s.totalDuration ≤ 0.0)) .totalDuration
  checkSteps s 0 0 s.segments
  require (s.gyro.noise.isFinite && s.gyro.noise ≥ 0.0) (.noise s.gyro.noise)
  require s.gyro.bias.isFinite .bias
  require (s.telemetry.decimation ≠ 0) .decimation

end Scenario
end Strapdown
