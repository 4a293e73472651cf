import Strapdown.Proofs.Scenario.Rewriting
import Strapdown.Proofs.Yaml.Records

/-!
Documents that give a scenario in part. What a document leaves out has its standard value, and it
changes nothing else; only an initial attitude and a segment have to be complete.
-/
namespace Strapdown
open Yaml (Answers Block Decoder Document Drafts Fault Flaw Node Spot Understands Varies)

variable {needed names : List String} {s : Spot}

/-- The entries of an initial attitude and of a segment. -/
def neededNames : List String := ["roll", "pitch", "yaw", "duration", "angular_velocity"]

namespace Yaml

theorem answers_required {α : Type} (s : Spot) (name : String) (v : α) :
    Answers (fun fault => s.value? name = none ∧ fault = s.fault (.missingField name)) v
      (Decoder.required s name ((s.value? name).map fun _ => v)) := by
  cases h : s.value? name with
  | none => exact ⟨rfl, rfl⟩
  | some value => exact .of_ok fun _ hflaw => nomatch hflaw.1

theorem getD_map_value? {α : Type} (s : Spot) (name : String) (x y : α) :
    ((s.value? name).map fun _ => x).getD y = if s.has name then x else y := by
  rw [Spot.has]
  cases s.value? name <;> rfl

end Yaml

namespace Vec3

theorem understands (v : Vec3 Float32) :
    Understands needed decode v.toBlock fun _ => v.map Yaml.settled :=
  .triple .float32 v.x v.y v.z

end Vec3

namespace Euler

/-- The angles that are known of an attitude. -/
def draft (e : Euler Float32) (given : String → Option Spot) : Draft where
  roll := (given "roll").map fun _ => Yaml.settled e.roll
  pitch := (given "pitch").map fun _ => Yaml.settled e.pitch
  yaw := (given "yaw").map fun _ => Yaml.settled e.yaw

theorem drafts (e : Euler Float32) : Drafts needed fields
    [("roll", .float32 e.roll), ("pitch", .float32 e.pitch), ("yaw", .float32 e.yaw)] e.draft where
  names := rfl
  known := by
    refine ⟨?_, ?_, ?_⟩
    · exact (Understands.float32 e.roll).offers rfl (fun _ => rfl) fun _ _ => by simp [draft]
    · exact (Understands.float32 e.pitch).offers rfl (fun _ => rfl) fun _ _ => by simp [draft]
    · exact (Understands.float32 e.yaw).offers rfl (fun _ => rfl) fun _ _ => by simp [draft]
  unknown := by
    intro name hname given value
    simp only [List.map_cons, List.map_nil, List.mem_cons, List.not_mem_nil, not_or] at hname
    simp [draft, Ne.symm, hname]

theorem understands (e : Euler Float32) :
    Understands neededNames decode e.toBlock fun _ => e.map Yaml.settled := by
  refine e.drafts.understands "struct EulerAngles" ?_
  intro s
  have hroll := Yaml.answers_required s "roll" (Yaml.settled e.roll)
  have hpitch := Yaml.answers_required s "pitch" (Yaml.settled e.pitch)
  have hyaw := Yaml.answers_required s "yaw" (Yaml.settled e.yaw)
  refine Answers.congr (Answers.bind hroll (Answers.bind hpitch (Answers.bind_ok hyaw rfl))) ?_
  intro fault
  simp [neededNames]

end Euler

namespace Segment

/-- What is known of a segment. -/
def draft (segment : Segment) (given : String → Option Spot) : Draft where
  duration := (given "duration").map fun _ => segment.settled.duration
  rate := (given "angular_velocity").map fun _ => segment.settled.rate

theorem drafts (segment : Segment) : Drafts needed fields
    [("duration", .float32 segment.duration), ("angular_velocity", segment.rate.toBlock)]
    segment.draft where
  names := rfl
  known := by
    refine ⟨?_, ?_⟩
    · exact (Understands.float32 segment.duration).offers rfl (fun _ => rfl)
        fun _ _ => by simp [draft, settled]
    · exact segment.rate.understands.offers rfl (fun _ => rfl) fun _ _ => by simp [draft, settled]
  unknown := by
    intro name hname given value
    simp only [List.map_cons, List.map_nil, List.mem_cons, List.not_mem_nil, not_or] at hname
    simp [draft, Ne.symm, hname]

theorem understands (segment : Segment) :
    Understands neededNames decode segment.toBlock fun _ => segment.settled := by
  refine segment.drafts.understands "struct RateSegment" ?_
  intro s
  have hduration := Yaml.answers_required s "duration" segment.settled.duration
  have hrate := Yaml.answers_required s "angular_velocity" segment.settled.rate
  refine Answers.congr (Answers.bind hduration (Answers.bind_ok hrate rfl)) ?_
  intro fault
  simp [neededNames]

end Segment

namespace GyroModel

/-- The errors that a document gives, and the standard ones that it leaves out. -/
def keeping (g : GyroModel) (s : Spot) : GyroModel where
  noise := if s.has "noise_std" then g.noise else standard.noise
  bias := if s.has "bias" then g.bias else standard.bias
  seed := if s.has "seed" then g.seed else standard.seed

/-- The errors that are known of a gyro. -/
def draft (g : GyroModel) (given : String → Option Spot) : Draft where
  noise := (given "noise_std").map fun _ => g.settled.noise
  bias := (given "bias").map fun _ => g.settled.bias
  seed := (given "seed").map fun _ => g.settled.seed

theorem drafts (g : GyroModel) : Drafts needed fields
    [("noise_std", .float32 g.noise), ("bias", g.bias.toBlock), ("seed", .count g.seed.toNat)]
    g.draft where
  names := rfl
  known := by
    refine ⟨?_, ?_, ?_⟩
    · exact (Understands.float32 g.noise).offers rfl (fun _ => rfl)
        fun _ _ => by simp [draft, settled]
    · exact g.bias.understands.offers rfl (fun _ => rfl) fun _ _ => by simp [draft, settled]
    · exact (Understands.count64 "u64" g.seed).offers rfl (fun _ => rfl)
        fun _ _ => by simp [draft, settled]
  unknown := by
    intro name hname given value
    simp only [List.map_cons, List.map_nil, List.mem_cons, List.not_mem_nil, not_or] at hname
    simp [draft, Ne.symm, hname]

theorem understands (g : GyroModel) :
    Understands neededNames decode g.toBlock g.settled.keeping := by
  refine g.drafts.understands "struct GyroConfig" ?_
  intro s
  refine ⟨?_, by simp [neededNames]⟩
  simp only [draft, keeping, Yaml.getD_map_value?]

end GyroModel

namespace Reporting

/-- The settings that a document gives, and the standard ones that it leaves out. -/
def keeping (r : Reporting) (s : Spot) : Reporting where
  decimation := if s.has "decimation" then r.decimation else standard.decimation
  driftLimit := if s.has "drift_warn_deg" then r.driftLimit else standard.driftLimit

/-- The settings that are known of a report. -/
def draft (r : Reporting) (given : String → Option Spot) : Draft where
  decimation := (given "decimation").map fun _ => r.settled.decimation
  driftLimit := (given "drift_warn_deg").map fun _ => r.settled.driftLimit

theorem drafts (r : Reporting) : Drafts needed fields
    [("decimation", .count r.decimation.toNat), ("drift_warn_deg", .float32 r.driftLimit)]
    r.draft where
  names := rfl
  known := by
    refine ⟨?_, ?_⟩
    · exact (Understands.count64 "usize" r.decimation).offers rfl (fun _ => rfl)
        fun _ _ => by simp [draft, settled]
    · exact (Understands.float32 r.driftLimit).offers rfl (fun _ => rfl)
        fun _ _ => by simp [draft, settled]
  unknown := by
    intro name hname given value
    simp only [List.map_cons, List.map_nil, List.mem_cons, List.not_mem_nil, not_or] at hname
    simp [draft, Ne.symm, hname]

theorem understands (r : Reporting) :
    Understands neededNames decode r.toBlock r.settled.keeping := by
  refine r.drafts.understands "struct TelemetryConfig" ?_
  intro s
  refine ⟨?_, by simp [neededNames]⟩
  simp only [draft, keeping, Yaml.getD_map_value?]

end Reporting

namespace Scenario

/-- What a document gives of a scenario, and the standard settings that it leaves out. -/
def keeping (c : Scenario) (s : Spot) : Scenario where
  rateHz := if s.has "rate_hz" then c.rateHz else standard.rateHz
  initialAttitude :=
    if s.has "initial_attitude" then c.initialAttitude else standard.initialAttitude
  segments := if s.has "segments" then c.segments else standard.segments
  gyro := ((s.value? "gyro").map c.gyro.keeping).getD .standard
  telemetry := ((s.value? "telemetry").map c.telemetry.keeping).getD .standard

/-- The settings that are known of a scenario. -/
def draft (c : Scenario) (given : String → Option Spot) : Draft where
  rateHz := (given "rate_hz").map fun _ => c.settled.rateHz
  initialAttitude := (given "initial_attitude").map fun _ => c.settled.initialAttitude
  segments := (given "segments").map fun _ => c.settled.segments
  gyro := (given "gyro").map c.settled.gyro.keeping
  telemetry := (given "telemetry").map c.settled.telemetry.keeping

theorem drafts (c : Scenario) : Drafts neededNames fields
    [("rate_hz", .float32 c.rateHz),
     ("initial_attitude", c.initialAttitude.toBlock),
     ("segments", .sequence (c.segments.map Segment.toBlock)),
     ("gyro", c.gyro.toBlock),
     ("telemetry", c.telemetry.toBlock)] c.draft where
  names := rfl
  known := by
    refine ⟨?_, ?_, ?_, ?_, ?_⟩
    · exact (Understands.float32 c.rateHz).offers rfl (fun _ => rfl)
        fun _ _ => by simp [draft, settled]
    · exact c.initialAttitude.understands.offers rfl (fun _ => rfl)
        fun _ _ => by simp [draft, settled]
    · exact (Understands.list Segment.understands c.segments).offers rfl (fun _ => rfl)
        fun _ _ => by simp [draft, settled]
    · exact c.gyro.understands.offers rfl (fun _ => rfl) fun _ _ => by simp [draft, settled]
    · exact c.telemetry.understands.offers rfl (fun _ => rfl) fun _ _ => by simp [draft, settled]
  unknown := by
    intro name hname given value
    simp only [List.map_cons, List.map_nil, List.mem_cons, List.not_mem_nil, not_or] at hname
    simp [draft, Ne.symm, hname]

theorem understands (c : Scenario) :
    Understands neededNames decode c.toBlock c.settled.keeping := by
  refine c.drafts.understands "struct SimConfig" ?_
  intro s
  refine ⟨?_, by simp [neededNames]⟩
  simp only [draft, keeping, Yaml.getD_map_value?]
  rfl

theorem distinct_toBlock (c : Scenario) : c.toBlock.Distinct := by
  have hvector (v : Vec3 Float32) : v.toBlock.Distinct := by
    refine .sequence ?_
    rw [List.forall_mem_map]
    exact fun x _ => .scalar _
  have hattitude : c.initialAttitude.toBlock.Distinct := by
    refine .mapping (by simp) ?_
    simp only [List.forall_mem_cons]
    exact ⟨.scalar _, .scalar _, .scalar _, List.forall_mem_nil _⟩
  have hsegment (segment : Segment) : segment.toBlock.Distinct := by
    refine .mapping (by simp) ?_
    simp only [List.forall_mem_cons]
    exact ⟨.scalar _, hvector segment.rate, List.forall_mem_nil _⟩
  have hgyro : c.gyro.toBlock.Distinct := by
    refine .mapping (by simp) ?_
    simp only [List.forall_mem_cons]
    exact ⟨.scalar _, hvector c.gyro.bias, .scalar _, List.forall_mem_nil _⟩
  have htelemetry : c.telemetry.toBlock.Distinct := by
    refine .mapping (by simp) ?_
    simp only [List.forall_mem_cons]
    exact ⟨.scalar _, .scalar _, List.forall_mem_nil _⟩
  refine .mapping (by simp) ?_
  simp only [List.forall_mem_cons]
  refine ⟨.scalar _, hattitude, .sequence ?_, hgyro, htelemetry, List.forall_mem_nil _⟩
  rw [List.forall_mem_map]
  exact fun segment _ => hsegment segment

/-- The document of a scenario is one of its variants. A variant without a flaw is read as the
scenario with what is left out at its standard value, and any other one is refused for a flaw. -/
theorem ofNode_of_varies (c : Scenario) :
    Varies c.toBlock (.ofRoot (Document.ofText c.toYaml.toList).root) ∧
    ∀ root, Varies c.toBlock (.ofRoot root) →
      ((∀ fault, ¬ Flaw neededNames c.toBlock (.ofRoot root) fault) →
        ofNode root = .ok (c.settled.keeping (.ofRoot root))) ∧
      ((∃ fault, Flaw neededNames c.toBlock (.ofRoot root) fault) →
        ∃ fault, ofNode root = .error fault ∧ Flaw neededNames c.toBlock (.ofRoot root) fault) ∧
      ∀ fault, Flaw neededNames c.toBlock (.ofRoot root) fault →
        (∃ name ∈ neededNames, fault.problem = .missingField name) ∨
          ∃ name, fault.problem = .duplicateField name := by
  rw [toYaml]
  refine ⟨(c.toBlock.shows_ofText c.decodes.simple).1.varies_ofRoot c.distinct_toBlock, ?_⟩
  intro root hroot
  have hanswers : Answers _ _ (ofNode root) := c.understands _ hroot
  refine ⟨?_, ?_, fun fault hfault => hfault.problem_cases⟩
  · intro hnone
    cases hresult : ofNode root with
    | error fault =>
      rw [hresult] at hanswers
      exact absurd hanswers (hnone fault)
    | ok x =>
      rw [hresult] at hanswers
      exact congrArg _ hanswers.1
  · rintro ⟨flaw, hflaw⟩
    cases hresult : ofNode root with
    | error fault =>
      rw [hresult] at hanswers
      exact ⟨fault, rfl, hanswers⟩
    | ok x =>
      rw [hresult] at hanswers
      exact absurd hflaw (hanswers.2 flaw)

/-- A rate beside an entry that means nothing is all that changes. An attitude of which only the yaw
is given and a rate that is given twice are refused. -/
theorem ofNode_of_rate :
    let rate := Node.plain (Block.numberStyle.write 500.0)
    let yaw := Node.plain (Block.numberStyle.write 0.0)
    ofNode (.ofPairs [("colour", yaw), ("rate_hz", rate)]) =
      .ok { standard with rateHz := 500.0 } ∧
    (∃ fault, ofNode (.ofPairs [("initial_attitude", .ofPairs [("yaw", yaw)])]) = .error fault) ∧
    ∃ fault, ofNode (.ofPairs [("rate_hz", rate), ("rate_hz", rate)]) = .error fault := by
  intro rate yaw
  let c : Scenario := { standard with rateHz := 500.0 }
  have hall := (ofNode_of_varies c).2
  have hrate (s : Spot) (hs : s.node = rate) : Varies (.float32 c.rateHz) s := .scalar hs
  refine ⟨?_, ?_, ?_⟩
  · let root := Node.ofPairs [("colour", yaw), ("rate_hz", rate)]
    have hvaries : Varies c.toBlock (.ofRoot root) :=
      .ofPairs (by simp [yaw, Node.plain, Node.stop?]) (by simpa using hrate _ rfl)
    have hkeeping : c.settled.keeping (.ofRoot root) = c := by decide +kernel
    refine ((hall _ hvaries).1 ?_).trans (congrArg _ hkeeping)
    intro fault
    have hnone (s : Spot) : ¬ Flaw neededNames (.float32 c.rateHz) s fault := Yaml.not_flaw_scalar
    exact Yaml.not_flaw_ofPairs (by simp [neededNames]) (by simp) (by simpa using hnone _)
  · let root := Node.ofPairs [("initial_attitude", .ofPairs [("yaw", yaw)])]
    let attitude : Spot := ⟨root, [.key "initial_attitude"], .ofPairs [("yaw", yaw)]⟩
    have hyaw (s : Spot) (hs : s.node = yaw) : Varies (.float32 c.initialAttitude.yaw) s :=
      .scalar hs
    have hattitude : Varies c.initialAttitude.toBlock attitude :=
      .ofPairs (by simp) (by simpa using hyaw _ rfl)
    have hvaries : Varies c.toBlock (.ofRoot root) := by
      refine .ofPairs (by simp) ?_
      intro pair hpair block hblock
      obtain rfl := List.mem_singleton.mp hpair
      obtain rfl : block = c.initialAttitude.toBlock := by simpa using hblock
      exact hattitude
    have hflaw : Flaw neededNames c.initialAttitude.toBlock attitude
        (attitude.fault (.missingField "roll")) := .missing (by decide) (by simp) rfl
    have hroot :
        Flaw neededNames c.toBlock (.ofRoot root) (attitude.fault (.missingField "roll")) :=
      .value (List.mem_cons_of_mem _ List.mem_cons_self) rfl hflaw
    obtain ⟨fault, hfault, -⟩ := (hall _ hvaries).2.1 ⟨_, hroot⟩
    exact ⟨fault, hfault⟩
  · have hvaries : Varies c.toBlock (.ofRoot (.ofPairs [("rate_hz", rate), ("rate_hz", rate)])) :=
      .ofPairs (by simp) (by simpa using hrate _ rfl)
    have hpairs : (Spot.ofRoot (.ofPairs [("rate_hz", rate), ("rate_hz", rate)])).node.pairs? =
        some ([(.plain "rate_hz", rate)] ++ (.plain "rate_hz", rate) :: []) := rfl
    obtain ⟨fault, hfault, -⟩ := (hall _ hvaries).2.1
      ⟨_, .repeated hpairs rfl (by simp) ⟨_, List.mem_singleton_self _, rfl⟩⟩
    exact ⟨fault, hfault⟩

/-- A bias of the one magnitude that does not survive is read as its neighbour wherever it stands, and
a key that is a sequence is refused. -/
theorem ofNode_of_bias :
    let zero := Node.plain (Block.numberStyle.write 0.0)
    let bias := Node.plain (Block.numberStyle.write biased.gyro.bias.x)
    let gyro := Node.ofPairs [("bias", .sequence .start none [bias, zero, zero])]
    let root := Node.ofPairs [("gyro", gyro)]
    Varies biased.toBlock (.ofRoot root) ∧ biased.keeping (.ofRoot root) = biased ∧
      ofNode root ≠ .ok biased ∧
      ∃ fault, ofNode (.mapping .start none [(.sequence .start none [], zero)]) = .error fault := by
  intro zero bias gyro root
  have hbias (s : Spot) (hs : s.node = .sequence .start none [bias, zero, zero]) :
      Varies biased.gyro.bias.toBlock s :=
    .sequence hs (.cons (.scalar rfl) (.cons (.scalar rfl) (.cons (.scalar rfl) .nil)))
  have hgyro : Varies biased.gyro.toBlock ⟨root, [.key "gyro"], gyro⟩ :=
    .ofPairs (by simp) (by simpa using hbias _ rfl)
  have hvaries : Varies biased.toBlock (.ofRoot root) := by
    refine .ofPairs (by simp) ?_
    intro pair hpair block hblock
    obtain rfl := List.mem_singleton.mp hpair
    obtain rfl : block = biased.gyro.toBlock := by simpa using hblock
    exact hgyro
  have hanswers : Answers _ _ (ofNode root) := biased.understands _ hvaries
  refine ⟨hvaries, by decide +kernel, ?_, _, rfl⟩
  intro hread
  rw [hread] at hanswers
  exact absurd hanswers.1 (by decide +kernel)

end Scenario

end Strapdown
