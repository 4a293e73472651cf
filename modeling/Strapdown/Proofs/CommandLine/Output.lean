import Strapdown.CommandLine.Outcome
import Strapdown.Proofs.CommandLine.Lines
import Strapdown.Proofs.Scenario.StepCounts
import Strapdown.Proofs.Simulation.Resumption

/-!
What a run prints. A scenario that cannot be read, is malformed or is invalid makes the program
report an error and print nothing; any other one is flown to its end before anything is printed, and
both ways to print show the same records.
-/
namespace Strapdown

variable {read : String → Except ReadFailure String} {path text : String} {error : LoadError}
  {c : Scenario} {config : Option String} {yaml verbose : Bool}

/-! The stages of loading, the first of which that fails decides on the error. -/

/-- Why the scenario at a path is of no use. -/
inductive Unusable (read : String → Except ReadFailure String) (path : String) : LoadError → Prop
  | unreadable {failure : ReadFailure} (h : read path = .error failure) :
      Unusable read path (.unreadable path failure)
  | malformed {text : String} {fault : Yaml.Fault} (h : read path = .ok text)
      (hf : Scenario.ofDocument (.ofText text.toList) = .error fault) :
      Unusable read path (.malformed fault)
  | invalid {text : String} {c : Scenario} {violation : Violation} (h : read path = .ok text)
      (hc : Scenario.ofDocument (.ofText text.toList) = .ok c)
      (hv : c.validate = .error violation) : Unusable read path (.invalid violation)

/-- The scenario that is flown: the standard one, or a valid one from the text at a path. -/
inductive Usable (read : String → Except ReadFailure String) : Option String → Scenario → Prop
  | standard : Usable read none .standard
  | given {path text : String} {c : Scenario} (h : read path = .ok text)
      (hc : Scenario.ofDocument (.ofText text.toList) = .ok c) (hv : c.validate = .ok ()) :
      Usable read (some path) c

namespace Scenario

theorem load_of_unusable (h : Unusable read path error) : load read path = .error error := by
  cases h with
  | unreadable h =>
    rw [load, h]
    rfl
  | malformed h hf =>
    rw [load, h]
    change parse _ = _
    rw [parse, hf]
    rfl
  | invalid h hc hv =>
    rw [load, h]
    change parse _ = _
    rw [parse, hc]
    change (Except.mapError LoadError.invalid _ >>= _) = _
    rw [hv]
    rfl

theorem load_of_usable (h : Usable read (some path) c) : load read path = .ok c := by
  cases h with
  | given h hc hv =>
    rw [load, h]
    change parse _ = _
    rw [parse, hc]
    change (Except.mapError LoadError.invalid _ >>= _) = _
    rw [hv]
    rfl

theorem unusable_or_usable (read : String → Except ReadFailure String) (path : String) :
    (∃ error, Unusable read path error) ∨ ∃ c, Usable read (some path) c := by
  cases h : read path with
  | error failure => exact .inl ⟨_, .unreadable h⟩
  | ok text =>
    cases hc : ofDocument (.ofText text.toList) with
    | error fault => exact .inl ⟨_, .malformed h hc⟩
    | ok c =>
      cases hv : c.validate with
      | error violation => exact .inl ⟨_, .invalid h hc hv⟩
      | ok => exact .inr ⟨c, .given h hc hv⟩

theorem validate_of_usable (h : Usable read config c) : c.validate = .ok () := by
  cases h with
  | standard => decide +kernel
  | given _ _ hv => exact hv

theorem length_rates (c : Scenario) : c.rates.length = c.stepCounts.sum := by
  rw [← rates_legs, Leg.length_rates, totalSteps_legs]

end Scenario

namespace CommandLine

/-! What is printed of a run. It is over when the first of its output appears. -/

theorem ofScenario_eq (h : c.validate = .ok ()) : ∃ report,
    (Simulation.initial c).run.result = .ok report ∧
    report.steps = c.stepCounts.sum ∧
    report.telemetry = records c.telemetry.decimation.toNat c.flight ∧
    report.telemetry.length = report.steps / c.telemetry.decimation.toNat ∧
    ∀ yaml verbose, ∃ log, Outcome.ofScenario c yaml verbose =
      ⟨0, telemetryText yaml report.telemetry ++ summary c report, none, log⟩ := by
  obtain ⟨last, events, -, -, -, -, hrun⟩ :=
    Simulation.run_of_onCourse (Simulation.onCourse_initial c) (Nat.zero_le _)
  have hlength := c.length_records_drop (d := c.telemetry.decimation.toNat) (Nat.zero_le _)
  rw [Nat.zero_div, Nat.sub_zero] at hlength
  refine ⟨_, by rw [hrun], c.length_rates, rfl, hlength, ?_⟩
  intro yaml verbose
  refine ⟨Event.upTo (if verbose then .debug else .info) (Simulation.initial c).run.events, ?_⟩
  simp only [Outcome.ofScenario, Simulation.start_of_validate h, hrun]

theorem respond_of_unusable {args : List String} (h : Unusable read path error)
    (hargs : Request.ofArguments args = .run (some path) yaml verbose) :
    respond read args = .notLoaded path error := by
  rw [respond, hargs]
  simp only [Request.outcome, Scenario.load_of_unusable h]

theorem respond_of_usable {args : List String} (h : Usable read config c)
    (hargs : Request.ofArguments args = .run config yaml verbose) :
    respond read args = .ofScenario c yaml verbose := by
  rw [respond, hargs]
  cases config with
  | none =>
    cases h
    rfl
  | some path => simp only [Request.outcome, Scenario.load_of_usable h]

/-- A run prints nothing and reports the error, or it prints all: its records, in lines of a table
or as YAML that tells them apart from any others, and after them the same summary either way. What
is logged does not matter to that. -/
theorem output_all_or_nothing (read : String → Except ReadFailure String) :
    (∀ path, (∃ error, Unusable read path error) ∨ ∃ c, Usable read (some path) c) ∧
    (∀ path error, Unusable read path error → ∀ args yaml verbose,
      Request.ofArguments args = .run (some path) yaml verbose →
        (respond read args).code ≠ 0 ∧ (respond read args).stdout = "" ∧
        (respond read args).report = some
          (errorText s!"loading scenario {path}" (error.message :: error.cause?.toList))) ∧
    (∀ config c, Usable read config c → ∃ report,
      (Simulation.initial c).run.result = .ok report ∧
      report.steps = c.stepCounts.sum ∧
      report.telemetry = records c.telemetry.decimation.toNat c.flight ∧
      report.telemetry.length = report.steps / c.telemetry.decimation.toNat ∧
      (∀ args yaml verbose, Request.ofArguments args = .run config yaml verbose →
        (respond read args).code = 0 ∧ (respond read args).report = none ∧
        (respond read args).stdout =
          (if yaml then TelemetryRecord.listYaml report.telemetry else table report.telemetry) ++
            summary c report ∧
        (yaml = false → linesOf (respond read args).stdout =
          tableHeader :: report.telemetry.map tableRow ++ linesOf (summary c report)) ∧
        (yaml = true → linesOf (respond read args).stdout =
            listLines report.telemetry ++ linesOf (summary c report) ∧
          ∀ others, TelemetryRecord.listYaml others ++ summary c report =
            (respond read args).stdout → others = report.telemetry)) ∧
      wordsOf tableHeader = headerWords ∧
      (∀ record ∈ report.telemetry, wordsOf (tableRow record) = rowWords record) ∧
      (linesOf (summary c report)).map wordsOf = summaryWords c report ++ [[]]) := by
  refine ⟨Scenario.unusable_or_usable read, ?_, ?_⟩
  · intro path error h args yaml verbose hargs
    rw [respond_of_unusable h hargs]
    exact ⟨(by decide : (1 : UInt32) ≠ 0), rfl, rfl⟩
  · intro config c h
    obtain ⟨report, hrun, hsteps, hrecords, hlength, hall⟩ :=
      ofScenario_eq (Scenario.validate_of_usable h)
    refine ⟨report, hrun, hsteps, hrecords, hlength, ?_, wordsOf_tableHeader,
      fun record _ => wordsOf_tableRow record, wordsOf_summary c report⟩
    intro args yaml verbose hargs
    obtain ⟨log, houtcome⟩ := hall yaml verbose
    rw [respond_of_usable h hargs, houtcome]
    refine ⟨rfl, rfl, rfl, ?_, ?_⟩
    · rintro rfl
      exact linesOf_table _ _
    · rintro rfl
      refine ⟨linesOf_listYaml _ _, ?_⟩
      intro others heq
      exact TelemetryRecord.listYaml_injective (by simpa [telemetryText] using heq)

/-- The standard scenario with a rate that nothing can be flown at. -/
def halted : Scenario := { Scenario.standard with rateHz := 0.0 }

/-- A missing file and a text that describes no valid scenario leave nothing printed; the standard
scenario is printed either way from the same 25 records, in a line each or in six. -/
theorem outputs_of_requests :
    let missing : String → Except ReadFailure String := fun _ => .error .notFound
    let stopped : String → Except ReadFailure String := fun _ => .ok halted.toYaml
    Request.ofArguments ["run", "--config", "a.yaml", "--yaml"] = .run (some "a.yaml") true false ∧
    (respond missing ["run", "--config", "a.yaml", "--yaml"]).code ≠ 0 ∧
    (respond missing ["run", "--config", "a.yaml", "--yaml"]).stdout = "" ∧
    Unusable stopped "a.yaml" (.invalid (.rate 0.0)) ∧
    (respond stopped ["run", "--config", "a.yaml", "--yaml"]).code ≠ 0 ∧
    (respond stopped ["run", "--config", "a.yaml", "--yaml"]).stdout = "" ∧
    ∃ report, report.steps = 2500 ∧ report.telemetry.length = 25 ∧
      (respond missing ["-v", "run"]).stdout =
        table report.telemetry ++ summary .standard report ∧
      (linesOf (respond missing ["-v", "run"]).stdout).length = 35 ∧
      (respond missing ["run", "--yaml"]).stdout =
        TelemetryRecord.listYaml report.telemetry ++ summary .standard report ∧
      (linesOf (respond missing ["run", "--yaml"]).stdout).length = 159 ∧
      (∀ others, TelemetryRecord.listYaml others ++ summary .standard report =
        (respond missing ["run", "--yaml"]).stdout → others = report.telemetry) ∧
      (∀ record ∈ report.telemetry, wordsOf (tableRow record) = rowWords record) ∧
      (linesOf (summary .standard report)).map wordsOf = summaryWords .standard report ++ [[]] := by
  intro missing stopped
  have hargs : Request.ofArguments ["run", "--config", "a.yaml", "--yaml"] =
      .run (some "a.yaml") true false := by cbv
  have hinvalid : Unusable stopped "a.yaml" (.invalid (.rate 0.0)) :=
    .invalid rfl (Scenario.ofDocument_toYaml halted) (by decide +kernel)
  obtain ⟨-, hmissing, hflown⟩ := output_all_or_nothing missing
  obtain ⟨-, hstopped, -⟩ := output_all_or_nothing stopped
  obtain ⟨hcode, hstdout, -⟩ := hmissing "a.yaml" _ (.unreadable rfl) _ _ _ hargs
  obtain ⟨hcode', hstdout', -⟩ := hstopped "a.yaml" _ hinvalid _ _ _ hargs
  obtain ⟨report, -, hsteps, -, hlength, hall, -, hrows, hsummary⟩ :=
    hflown none .standard .standard
  have hsum : Scenario.standard.stepCounts.sum = 2500 := by decide +kernel
  rw [hsum] at hsteps
  rw [hsteps] at hlength
  change report.telemetry.length = 25 at hlength
  have hend : (linesOf (summary .standard report)).length = 9 := by
    rw [← List.length_map wordsOf, hsummary]
    rfl
  obtain ⟨-, -, htable, hlines, -⟩ := hall ["-v", "run"] false true (by cbv)
  obtain ⟨-, -, hyaml, -, hitems⟩ := hall ["run", "--yaml"] true false (by cbv)
  obtain ⟨hitems, hunique⟩ := hitems rfl
  have hne : report.telemetry ≠ [] := by
    rw [← List.length_pos_iff, hlength]
    decide
  refine ⟨hargs, hcode, hstdout, hinvalid, hcode', hstdout', report, hsteps, hlength, htable, ?_,
    hyaml, ?_, hunique, hrows, hsummary⟩
  · rw [hlines rfl, List.length_append, List.length_cons, List.length_map, hlength, hend]
  · rw [hitems, List.length_append, length_listLines hne, hlength, hend]

end CommandLine
end Strapdown
