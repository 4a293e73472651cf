import Strapdown.CommandLine.Text

/-!
What a call of the program does. A run prints either all of its output or, if its scenario cannot be
loaded, none of it and a report of the error.
-/

namespace Strapdown.CommandLine

structure Outcome where
  code : UInt32
  stdout : String
  /-- The error that the program ends with. -/
  report : Option String
  /-- What is logged on the way. -/
  log : List Event

namespace Outcome

def success (stdout : String) : Outcome := ⟨0, stdout, none, []⟩

def misuse : Outcome := ⟨2, "", none, []⟩

/-- No scenario could be loaded from a path. -/
def notLoaded (path : String) (error : LoadError) : Outcome :=
  let causes := error.message :: error.cause?.toList
  ⟨1, "", some (errorText s!"loading scenario {path}" causes), []⟩

/-- No simulation could be started. -/
def notStarted (violation : Violation) : Outcome :=
  let causes := [(LoadError.invalid violation).message]
  ⟨1, "", some (errorText (Simulation.startMessage violation) causes), []⟩

/-- A simulation broke off. -/
def brokenOff (failure : Simulation.Failure) (log : List Event) : Outcome :=
  ⟨1, "", some (errorText failure.message []), log⟩

/-- Flies a scenario and prints its telemetry and a summary. -/
def ofScenario (scenario : Scenario) (yaml verbose : Bool) : Outcome :=
  match Simulation.start scenario with
  | .error violation => notStarted violation
  | .ok simulation =>
    let run := simulation.run
    let log := Event.upTo (if verbose then .debug else .info) run.events
    match run.result with
    | .error failure => brokenOff failure log
    | .ok report =>
      { code := 0
        stdout := telemetryText yaml report.telemetry ++ summary scenario report
        report := none
        log }

end Outcome

/-- The outcome of a request, given a way to read files. -/
def Request.outcome (read : String → Except ReadFailure String) : Request → Outcome
  | .misuse => .misuse
  | .version => .success versionText
  | .help topic => .success (helpText topic)
  | .exampleConfig => .success exampleText
  | .run none yaml verbose => .ofScenario .standard yaml verbose
  | .run (some path) yaml verbose =>
    match Scenario.load read path with
    | .error error => .notLoaded path error
    | .ok scenario => .ofScenario scenario yaml verbose

/-- What the program does when it is called with arguments. -/
def respond (read : String → Except ReadFailure String) (args : List String) : Outcome :=
  (Request.ofArguments args).outcome read

end Strapdown.CommandLine
