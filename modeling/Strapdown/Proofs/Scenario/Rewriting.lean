import Strapdown.Proofs.Yaml.Decoding
import Strapdown.Scenario.Loading

/-! Scenarios that are written as a document and loaded from it. -/
namespace Strapdown
open Yaml (Decodes Fills settled)

/-! What a value is read as has its numbers settled, and is otherwise the value. -/

namespace Vec3

theorem decodes (v : Vec3 Float32) : Decodes decode v.toBlock (v.map settled) :=
  Decodes.triple Decodes.float32 v.x v.y v.z

theorem map_eq_self_iff {f : Float32 → Float32} {v : Vec3 Float32} :
    v.map f = v ↔ ∀ x ∈ v.toList, f x = x := by
  rw [Vec3.ext_iff]
  simp [map, toList]

end Vec3

namespace Euler

theorem fills (e : Euler Float32) : Fills fields ⟨none, none, none⟩
    [("roll", .float32 e.roll), ("pitch", .float32 e.pitch), ("yaw", .float32 e.yaw)]
    ⟨some (settled e.roll), some (settled e.pitch), some (settled e.yaw)⟩ := by
  refine .cons (by decide) rfl rfl ((Decodes.float32 e.roll).map _) ?_
  refine .cons (by decide) rfl rfl ((Decodes.float32 e.pitch).map _) ?_
  refine .cons (by decide) rfl rfl ((Decodes.float32 e.yaw).map _) ?_
  exact .nil _

theorem decodes (e : Euler Float32) : Decodes decode e.toBlock (e.map settled) :=
  (e.fills.record "struct EulerAngles").bind fun _ => rfl

def toList (e : Euler Float32) : List Float32 := [e.roll, e.pitch, e.yaw]

theorem map_eq_self_iff {f : Float32 → Float32} {e : Euler Float32} :
    e.map f = e ↔ ∀ x ∈ e.toList, f x = x := by
  obtain ⟨roll, pitch, yaw⟩ := e
  simp [map, toList]

end Euler

namespace Segment

def settled (s : Segment) : Segment := ⟨Yaml.settled s.duration, s.rate.map Yaml.settled⟩

theorem fills (s : Segment) : Fills fields ⟨none, none⟩
    [("duration", .float32 s.duration), ("angular_velocity", s.rate.toBlock)]
    ⟨some s.settled.duration, some s.settled.rate⟩ := by
  refine .cons (by decide) rfl rfl ((Decodes.float32 s.duration).map _) ?_
  refine .cons (by decide) rfl rfl (s.rate.decodes.map _) ?_
  exact .nil _

theorem decodes (s : Segment) : Decodes decode s.toBlock s.settled :=
  (s.fills.record "struct RateSegment").bind fun _ => rfl

def floats (s : Segment) : List Float32 := s.duration :: s.rate.toList

theorem settled_eq_self_iff {s : Segment} :
    s.settled = s ↔ ∀ x ∈ s.floats, Yaml.settled x = x := by
  obtain ⟨duration, rate⟩ := s
  simp [settled, floats, Vec3.map_eq_self_iff]

end Segment

namespace GyroModel

def settled (g : GyroModel) : GyroModel :=
  { g with noise := Yaml.settled g.noise, bias := g.bias.map Yaml.settled }

theorem fills (g : GyroModel) : Fills fields ⟨none, none, none⟩
    [("noise_std", .float32 g.noise), ("bias", g.bias.toBlock), ("seed", .count g.seed.toNat)]
    ⟨some g.settled.noise, some g.settled.bias, some g.seed⟩ := by
  refine .cons (by decide) rfl rfl ((Decodes.float32 g.noise).map _) ?_
  refine .cons (by decide) rfl rfl (g.bias.decodes.map _) ?_
  refine .cons (by decide) rfl rfl ((Decodes.count64 "u64" g.seed).map _) ?_
  exact .nil _

theorem decodes (g : GyroModel) : Decodes decode g.toBlock g.settled :=
  (g.fills.record "struct GyroConfig").bind fun _ => rfl

end GyroModel

namespace Reporting

def settled (r : Reporting) : Reporting := { r with driftLimit := Yaml.settled r.driftLimit }

theorem fills (r : Reporting) : Fills fields ⟨none, none⟩
    [("decimation", .count r.decimation.toNat), ("drift_warn_deg", .float32 r.driftLimit)]
    ⟨some r.decimation, some r.settled.driftLimit⟩ := by
  refine .cons (by decide) rfl rfl ((Decodes.count64 "usize" r.decimation).map _) ?_
  refine .cons (by decide) rfl rfl ((Decodes.float32 r.driftLimit).map _) ?_
  exact .nil _

theorem decodes (r : Reporting) : Decodes decode r.toBlock r.settled :=
  (r.fills.record "struct TelemetryConfig").bind fun _ => rfl

end Reporting

namespace Scenario

/-- The scenario that the text of a scenario describes. -/
def settled (c : Scenario) : Scenario where
  rateHz := Yaml.settled c.rateHz
  initialAttitude := c.initialAttitude.map Yaml.settled
  segments := c.segments.map Segment.settled
  gyro := c.gyro.settled
  telemetry := c.telemetry.settled

theorem fills (c : Scenario) : Fills fields ⟨none, none, none, none, none⟩
    [("rate_hz", .float32 c.rateHz),
     ("initial_attitude", c.initialAttitude.toBlock),
     ("segments", .sequence (c.segments.map Segment.toBlock)),
     ("gyro", c.gyro.toBlock),
     ("telemetry", c.telemetry.toBlock)]
    ⟨some c.settled.rateHz, some c.settled.initialAttitude, some c.settled.segments,
     some c.settled.gyro, some c.settled.telemetry⟩ := by
  refine .cons (by decide) rfl rfl ((Decodes.float32 c.rateHz).map _) ?_
  refine .cons (by decide) rfl rfl (c.initialAttitude.decodes.map _) ?_
  refine .cons (by decide) rfl rfl ((Decodes.list Segment.decodes c.segments).map _) ?_
  refine .cons (by decide) rfl rfl (c.gyro.decodes.map _) ?_
  refine .cons (by decide) rfl rfl (c.telemetry.decodes.map _) ?_
  exact .nil _

theorem decodes (c : Scenario) : Decodes decode c.toBlock c.settled :=
  (c.fills.record "struct SimConfig").bind fun _ => rfl

/-- The text of a scenario is a document, and it describes a scenario, valid or not. -/
theorem ofDocument_toYaml (c : Scenario) :
    ofDocument (.ofText c.toYaml.toList) = .ok c.settled := by
  obtain ⟨hdecode, hexcess⟩ := c.decodes.ofText
  rw [ofDocument, ofNode, toYaml, hdecode]
  simp only [hexcess]
  rfl

theorem parse_toYaml (c : Scenario) : parse c.toYaml =
    match c.settled.validate with
    | .ok () => .ok c.settled
    | .error violation => .error (.invalid violation) := by
  rw [parse, ofDocument_toYaml]
  change (c.settled.validate.mapError LoadError.invalid >>= fun _ => .ok c.settled) = _
  cases c.settled.validate <;> rfl

/-- All numbers of a scenario that are no counts. -/
def floats (c : Scenario) : List Float32 :=
  [c.rateHz] ++ c.initialAttitude.toList ++ c.segments.flatMap Segment.floats ++
    [c.gyro.noise] ++ c.gyro.bias.toList ++ [c.telemetry.driftLimit]

theorem map_settled_eq_self_iff {segments : List Segment} : segments.map Segment.settled = segments ↔
    ∀ x ∈ segments.flatMap Segment.floats, Yaml.settled x = x := by
  induction segments with
  | nil => simp
  | cons segment segments ih =>
    rw [List.map_cons, List.cons.injEq, Segment.settled_eq_self_iff, ih, List.flatMap_cons,
      List.forall_mem_append]

theorem settled_eq_self_iff {c : Scenario} :
    c.settled = c ↔ ∀ x ∈ c.floats, Yaml.settled x = x := by
  obtain ⟨rate, attitude, segments, ⟨noise, bias, seed⟩, ⟨decimation, limit⟩⟩ := c
  simp only [floats, List.forall_mem_append, List.forall_mem_singleton, settled, mk.injEq,
    GyroModel.settled, GyroModel.mk.injEq, Reporting.settled, Reporting.mk.injEq,
    Euler.map_eq_self_iff, Vec3.map_eq_self_iff, map_settled_eq_self_iff]
  tauto

/-- A scenario that is written and loaded again has its numbers settled, and is checked as such. -/
theorem parse_toYaml_settles (c : Scenario) :
    (parse c.toYaml = match c.settled.validate with
      | .ok () => .ok c.settled
      | .error violation => .error (.invalid violation)) ∧
    (c.settled = c ↔ ∀ x ∈ c.floats, x.toBits ≠ 0x15ae43fd ∧ x.toBits ≠ 0x95ae43fd) := by
  refine ⟨parse_toYaml c, ?_⟩
  rw [settled_eq_self_iff]
  refine forall₂_congr ?_
  intro x _
  exact Yaml.settled_eq_self_iff

/-- The standard scenario with a gyro whose bias does not survive. -/
def biased : Scenario :=
  { standard with gyro := { GyroModel.standard with bias := ⟨.ofBits 0x15ae43fd, 0.0, 0.0⟩ } }

theorem parse_toYaml_biased : biased.validate = .ok () ∧ parse biased.toYaml ≠ .ok biased ∧
    parse biased.toYaml = .ok { standard with
      gyro := { GyroModel.standard with bias := ⟨.ofBits 0x15ae43fe, 0.0, 0.0⟩ } } := by
  have hsettled : biased.settled = { standard with
      gyro := { GyroModel.standard with bias := ⟨.ofBits 0x15ae43fe, 0.0, 0.0⟩ } } := by
    decide +kernel
  have hvalid : biased.settled.validate = .ok () := by decide +kernel
  have hparse : parse biased.toYaml = .ok biased.settled := by
    rw [parse_toYaml, hvalid]
  refine ⟨by decide +kernel, ?_, hparse.trans (congrArg _ hsettled)⟩
  rw [hparse, hsettled]
  intro h
  exact absurd (Except.ok.inj h) (by decide +kernel)

end Scenario
end Strapdown
