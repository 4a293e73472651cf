import Strapdown.CommandLine.Arguments
import Strapdown.Simulation

/-! What the program prints: telemetry, the summary of a run, errors and help. -/

namespace Strapdown.CommandLine
open Decimal (Style fixedPlaces)

/-- Fills up with spaces on the left. -/
def padLeft (width : Nat) (s : String) : String :=
  String.ofList (List.replicate (width - s.length) ' ') ++ s

def tableHeader : String :=
  " ".intercalate
    [padLeft 8 "t [s]", padLeft 9 "roll", padLeft 9 "pitch", padLeft 9 "yaw", padLeft 10 "drift"]

def tableRow (r : TelemetryRecord) : String :=
  " ".intercalate
    [padLeft 8 (fixedPlaces 3 r.time),
     padLeft 9 (fixedPlaces 3 r.attitude.roll),
     padLeft 9 (fixedPlaces 3 r.attitude.pitch),
     padLeft 9 (fixedPlaces 3 r.attitude.yaw),
     padLeft 10 (fixedPlaces 5 r.drift)]

def ofLines (lines : List String) : String := String.join (lines.map (· ++ "\n"))

/-- Telemetry as a table with a header. -/
def table (records : List TelemetryRecord) : String :=
  ofLines (tableHeader :: records.map tableRow)

def telemetryText (yaml : Bool) (records : List TelemetryRecord) : String :=
  if yaml then TelemetryRecord.listYaml records else table records

/-- An attitude by its angles in degrees. -/
def attitudeText (q : Quaternion Float32) : String :=
  let e := (Euler.ofQuaternion q).inDegrees
  s!"roll {fixedPlaces 3 e.roll}  pitch {fixedPlaces 3 e.pitch}  yaw {fixedPlaces 3 e.yaw} deg"

def summary (scenario : Scenario) (report : Simulation.Report) : String :=
  ofLines
    ["",
     s!"rate:           {Style.plain.write scenario.rateHz} Hz",
     s!"steps:          {report.steps}",
     s!"duration:       {fixedPlaces 3 report.duration} s",
     s!"final truth:    {attitudeText report.attitudes.truth}",
     s!"final estimate: {attitudeText report.attitudes.estimate}",
     s!"final drift:    {fixedPlaces 5 (Numeric.inDegrees report.finalDrift)} deg",
     s!"max drift:      {fixedPlaces 5 (Numeric.inDegrees report.maxDrift)} deg"]

def programName : String := "acs-nav-sim"

def versionText : String := ofLines [programName ++ " 0.1.0"]

/-- The standard scenario as YAML, under two lines of comment. -/
def exampleText : String :=
  ofLines
    ["# " ++ programName ++ " scenario",
     "# angles [rad], angular_velocity [rad/s], rate_hz [Hz], durations [s]"] ++
  Scenario.standard.toYaml

/-- Indents the further lines of a cause as its first one is by what stands before it. -/
def cause (lead : String) (text : String) : String :=
  let indent := String.ofList (List.replicate lead.length ' ')
  "\n" ++ lead ++ ("\n" ++ indent).intercalate (text.splitOn "\n")

/-- An error with its causes, which are numbered if there are several. -/
def errorText (error : String) (causes : List String) : String :=
  let lead (i : Nat) : String :=
    if causes.length ≤ 1 then "    " else padLeft 5 (toString i) ++ ": "
  let heading := if causes.isEmpty then "" else "\n\nCaused by:"
  let lines := causes.mapIdx fun i text => cause (lead i) text
  "Error: " ++ error ++ heading ++ String.join lines ++ "\n"

def verboseHelp : String := "Enable verbose logging"

def helpText : Topic → String
  | .program => ofLines
    ["Fixed-rate gyro propagation harness",
     "",
     "Usage: " ++ programName ++ " [OPTIONS] <COMMAND>",
     "",
     "Commands:",
     "  run             Run a propagation scenario",
     "  example-config  Print the default scenario as YAML",
     "  help            Print this message or the help of the given subcommand(s)",
     "",
     "Options:",
     "  -v, --verbose  " ++ verboseHelp,
     "  -h, --help     Print help",
     "  -V, --version  Print version"]
  | .run => ofLines
    ["Run a propagation scenario",
     "",
     "Usage: " ++ programName ++ " run [OPTIONS]",
     "",
     "Options:",
     "  -c, --config <CONFIG>  YAML scenario file (built-in default scenario if omitted)",
     "  -v, --verbose          " ++ verboseHelp,
     "      --yaml             Print telemetry as YAML instead of a table",
     "  -h, --help             Print help"]
  | .exampleConfig => ofLines
    ["Print the default scenario as YAML",
     "",
     "Usage: " ++ programName ++ " example-config [OPTIONS]",
     "",
     "Options:",
     "  -v, --verbose  " ++ verboseHelp,
     "  -h, --help     Print help"]
  | .help => ofLines
    ["Print this message or the help of the given subcommand(s)",
     "",
     "Usage: " ++ programName ++ " help [COMMAND]...",
     "",
     "Arguments:",
     "  [COMMAND]...  Print help for the subcommand(s)"]

end Strapdown.CommandLine
