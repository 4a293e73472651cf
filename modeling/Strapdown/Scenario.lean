import Strapdown.Attitude.Euler
import Strapdown.Binary

/-!
Scenarios: a profile of body rates that is flown segment by segment at a fixed sample rate, and the
errors of the gyro that measures it.
-/

namespace Strapdown

/-- A time, in seconds, at a constant body rate, in radians per second. -/
structure Segment where
  duration : Float32
  rate : Vec3 Float32
deriving DecidableEq

/-- The errors of a gyro, in radians per second. -/
structure GyroModel where
  noise : Float32
  bias : Vec3 Float32
  seed : UInt64
deriving DecidableEq

/-- How a run is reported: every so many steps, and with a warning beyond a drift in degrees. -/
structure Reporting where
  decimation : UInt64
  driftLimit : Float32
deriving DecidableEq

structure Scenario where
  /-- Samples per second. -/
  rateHz : Float32
  initialAttitude : Euler Float32
  segments : List Segment
  gyro : GyroModel
  telemetry : Reporting
deriving DecidableEq

def GyroModel.standard : GyroModel := ⟨0.0, Vec3.zero, 12345⟩

def Reporting.standard : Reporting := ⟨100, 1.0⟩

namespace Scenario

/-- A quarter turn of yaw in a second, half a second at rest, and a second of slow roll. -/
def standard : Scenario where
  rateHz := 1000.0
  initialAttitude := Euler.zero
  segments :=
    [⟨1.0, ⟨0.0, 0.0, Numeric.inRadians 90.0⟩⟩,
     ⟨0.5, Vec3.zero⟩,
     ⟨1.0, ⟨Numeric.inRadians 20.0, 0.0, 0.0⟩⟩]
  gyro := .standard
  telemetry := .standard

/-- The time between samples, in seconds. -/
def dt (s : Scenario) : Float32 := 1.0 / s.rateHz

/-- The sum of all durations; the sum of none is negative zero. -/
def totalDuration (s : Scenario) : Float32 :=
  s.segments.foldl (fun sum segment => sum + segment.duration) (-0.0)

/-- The number of samples in a duration, before it is rounded. -/
def samples (s : Scenario) (segment : Segment) : Float32 := segment.duration * s.rateHz

/-- The number of samples in each segment, rounded to whole ones. -/
def stepCounts (s : Scenario) : List Nat :=
  s.segments.map fun segment => Binary.toCount (s.samples segment)

end Scenario
end Strapdown
