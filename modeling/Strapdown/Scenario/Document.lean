import Strapdown.Scenario
import Strapdown.Yaml.Block
import Strapdown.Yaml.Decoder

/-!
Scenarios as YAML documents. A document may leave out any setting of a scenario, its gyro and its
telemetry, which then has its standard value; a segment and an initial attitude have to be complete.
-/

namespace Strapdown
open Yaml (Block Decoder Fault RecordField Node Spot)

namespace Vec3

def toBlock (v : Vec3 Float32) : Block := .sequence (v.toList.map .float32)

def decode : Decoder (Vec3 Float32) := Decoder.triple Decoder.float32 Vec3.mk

end Vec3

namespace Euler

def toBlock (e : Euler Float32) : Block :=
  .mapping [("roll", .float32 e.roll), ("pitch", .float32 e.pitch), ("yaw", .float32 e.yaw)]

/-- The angles read so far. -/
structure Draft where
  roll : Option Float32
  pitch : Option Float32
  yaw : Option Float32

def fields : List (RecordField Draft) :=
  [.ofOption "roll" (·.roll) (fun v d => { d with roll := v }) Decoder.float32,
   .ofOption "pitch" (·.pitch) (fun v d => { d with pitch := v }) Decoder.float32,
   .ofOption "yaw" (·.yaw) (fun v d => { d with yaw := v }) Decoder.float32]

def decode : Decoder (Euler Float32) := fun s => do
  let draft ← Decoder.record "struct EulerAngles" fields ⟨none, none, none⟩ s
  let roll ← Decoder.required s "roll" draft.roll
  let pitch ← Decoder.required s "pitch" draft.pitch
  let yaw ← Decoder.required s "yaw" draft.yaw
  return ⟨roll, pitch, yaw⟩

end Euler

namespace Segment

def toBlock (s : Segment) : Block :=
  .mapping [("duration", .float32 s.duration), ("angular_velocity", s.rate.toBlock)]

/-- What is known of a segment so far. -/
structure Draft where
  duration : Option Float32
  rate : Option (Vec3 Float32)

def fields : List (RecordField Draft) :=
  [.ofOption "duration" (·.duration) (fun v d => { d with duration := v }) Decoder.float32,
   .ofOption "angular_velocity" (·.rate) (fun v d => { d with rate := v }) Vec3.decode]

def decode : Decoder Segment := fun s => do
  let draft ← Decoder.record "struct RateSegment" fields ⟨none, none⟩ s
  let duration ← Decoder.required s "duration" draft.duration
  let rate ← Decoder.required s "angular_velocity" draft.rate
  return ⟨duration, rate⟩

end Segment

namespace GyroModel

def toBlock (g : GyroModel) : Block :=
  .mapping
    [("noise_std", .float32 g.noise), ("bias", g.bias.toBlock), ("seed", .count g.seed.toNat)]

/-- The errors given so far. -/
structure Draft where
  noise : Option Float32
  bias : Option (Vec3 Float32)
  seed : Option UInt64

def fields : List (RecordField Draft) :=
  [.ofOption "noise_std" (·.noise) (fun v d => { d with noise := v }) Decoder.float32,
   .ofOption "bias" (·.bias) (fun v d => { d with bias := v }) Vec3.decode,
   .ofOption "seed" (·.seed) (fun v d => { d with seed := v }) (Decoder.count64 "u64")]

def decode : Decoder GyroModel := fun s => do
  let draft ← Decoder.record "struct GyroConfig" fields ⟨none, none, none⟩ s
  return {
    noise := draft.noise.getD standard.noise
    bias := draft.bias.getD standard.bias
    seed := draft.seed.getD standard.seed }

end GyroModel

namespace Reporting

def toBlock (r : Reporting) : Block :=
  .mapping
    [("decimation", .count r.decimation.toNat), ("drift_warn_deg", .float32 r.driftLimit)]

/-- The settings given so far. -/
structure Draft where
  decimation : Option UInt64
  driftLimit : Option Float32

def fields : List (RecordField Draft) :=
  [.ofOption "decimation" (·.decimation) (fun v d => { d with decimation := v })
    (Decoder.count64 "usize"),
   .ofOption "drift_warn_deg" (·.driftLimit) (fun v d => { d with driftLimit := v })
    Decoder.float32]

def decode : Decoder Reporting := fun s => do
  let draft ← Decoder.record "struct TelemetryConfig" fields ⟨none, none⟩ s
  return {
    decimation := draft.decimation.getD standard.decimation
    driftLimit := draft.driftLimit.getD standard.driftLimit }

end Reporting

namespace Scenario

def toBlock (s : Scenario) : Block :=
  .mapping
    [("rate_hz", .float32 s.rateHz),
     ("initial_attitude", s.initialAttitude.toBlock),
     ("segments", .sequence (s.segments.map Segment.toBlock)),
     ("gyro", s.gyro.toBlock),
     ("telemetry", s.telemetry.toBlock)]

/-- The scenario as YAML text. -/
def toYaml (s : Scenario) : String := s.toBlock.text

/-- The settings given so far. -/
structure Draft where
  rateHz : Option Float32
  initialAttitude : Option (Euler Float32)
  segments : Option (List Segment)
  gyro : Option GyroModel
  telemetry : Option Reporting

def fields : List (RecordField Draft) :=
  [.ofOption "rate_hz" (·.rateHz) (fun v d => { d with rateHz := v }) Decoder.float32,
   .ofOption "initial_attitude" (·.initialAttitude) (fun v d => { d with initialAttitude := v })
    Euler.decode,
   .ofOption "segments" (·.segments) (fun v d => { d with segments := v })
    (Decoder.list Segment.decode),
   .ofOption "gyro" (·.gyro) (fun v d => { d with gyro := v }) GyroModel.decode,
   .ofOption "telemetry" (·.telemetry) (fun v d => { d with telemetry := v }) Reporting.decode]

def decode : Decoder Scenario := fun s => do
  let draft ← Decoder.record "struct SimConfig" fields ⟨none, none, none, none, none⟩ s
  return {
    rateHz := draft.rateHz.getD standard.rateHz
    initialAttitude := draft.initialAttitude.getD standard.initialAttitude
    segments := draft.segments.getD standard.segments
    gyro := draft.gyro.getD standard.gyro
    telemetry := draft.telemetry.getD standard.telemetry }

/-- The scenario of a document, valid or not. -/
def ofNode (root : Node) : Except Fault Scenario := decode (.ofRoot root)

end Scenario
end Strapdown
