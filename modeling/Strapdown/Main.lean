import Strapdown.CommandLine.Outcome

/-! The program: reads the scenario that its arguments name, and prints the outcome. -/

namespace Strapdown.CommandLine

/-- The failure that the system reports for a file. -/
def failureOf : IO.Error → ReadFailure
  | .noFileOrDirectory .. => .notFound
  | .inappropriateType _ code _ => if code = 21 then .isDirectory else .notDirectory
  | .permissionDenied _ code details => .system s!"{details} (os error {code})"
  | error => .system (toString error)

/-- Reads a file before the outcome is computed. -/
def readFile (path : String) : IO (Except ReadFailure String) := do
  if path.contains '\x00' then return .error .nulInPath
  try
    return textOf (← IO.FS.readBinFile path)
  catch error => return .error (failureOf error)

def logLine (e : Event) : String :=
  let value : Event.Value → String
    | .number x => Decimal.Style.plain.write x
    | .count n => toString n
  let fields := e.fields.map fun (name, v) => s!" {name}={value v}"
  let level := match e.level with
    | .warn => "WARN"
    | .info => "INFO"
    | .debug => "DEBUG"
  s!"{level} {e.message}" ++ String.join fields

end Strapdown.CommandLine

open Strapdown.CommandLine

def main (args : List String) : IO UInt32 := do
  let request := Request.ofArguments args
  let contents ← match request with
    | .run (some path) _ _ => readFile path
    | _ => pure (.ok "")
  let outcome := request.outcome fun _ => contents
  let stdout ← IO.getStdout
  let stderr ← IO.getStderr
  for e in outcome.log do
    stderr.putStrLn (logLine e)
  stdout.putStr outcome.stdout
  for report in outcome.report.toList do
    stderr.putStr report
  if outcome.code = 2 then stderr.putStrLn "error: unusable arguments; --help lists them"
  return outcome.code
