import Strapdown.Attitude.Euler
import Strapdown.Attitude.Propagation
import Strapdown.Scenario.Document

/-! What a simulation gives out step by step, and the records that are kept for display. -/

namespace Strapdown

/-- The state after a step. -/
structure Sample where
  /-- How many steps have been taken. -/
  index : Nat
  /-- Seconds since the start. -/
  time : Float32
  attitudes : Propagation Float32
  /-- What the gyro measured during the step. -/
  measuredRate : Vec3 Float32
  /-- The angle between truth and estimate, in radians. -/
  drift : Float32

/-- A sample for display, with angles in degrees. -/
structure TelemetryRecord where
  time : Float32
  attitude : Euler Float32
  drift : Float32
deriving DecidableEq

namespace TelemetryRecord

def ofSample (s : Sample) : TelemetryRecord where
  time := s.time
  attitude := (Euler.ofQuaternion s.attitudes.estimate).inDegrees
  drift := Numeric.inDegrees s.drift

def toBlock (r : TelemetryRecord) : Yaml.Block :=
  .mapping
    [("time", .float32 r.time),
     ("attitude_deg", r.attitude.toBlock),
     ("drift_deg", .float32 r.drift)]

/-- Records as YAML text. -/
def listYaml (records : List TelemetryRecord) : String :=
  Yaml.Block.text (.sequence (records.map toBlock))

end TelemetryRecord
end Strapdown
