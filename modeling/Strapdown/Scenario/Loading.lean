import Strapdown.Files
import Strapdown.Scenario.Document
import Strapdown.Scenario.Validity

/-! Loading scenarios from text and from files. -/

namespace Strapdown

/-- Why no scenario could be loaded. -/
inductive LoadError
  | unreadable (path : String) (failure : ReadFailure)
  | malformed (fault : Yaml.Fault)
  | invalid (violation : Violation)

namespace LoadError

def message : LoadError → String
  | unreadable path failure => s!"failed to read config {path}: {failure.message}"
  | malformed fault => s!"failed to parse config: {fault.message}"
  | invalid violation => s!"invalid config: {violation.message}"

/-- What lies behind the message, where that is more than its last words. -/
def cause? : LoadError → Option String
  | unreadable _ failure => some failure.message
  | malformed fault => some fault.message
  | invalid _ => none

end LoadError

namespace Scenario

/-- The scenario of a document, valid or not. Nothing may follow the document. -/
def ofDocument (d : Yaml.Document) : Except Yaml.Fault Scenario := do
  let scenario ← ofNode d.root
  match d.excess with
  | none => return scenario
  | some mark => throw ⟨.unreadable, [], mark⟩

/-- The valid scenario that a text describes. -/
def parse (text : String) : Except LoadError Scenario := do
  let scenario ← (ofDocument (.ofText text.toList)).mapError .malformed
  scenario.validate.mapError .invalid
  return scenario

/-- The valid scenario in a file, given a way to read files. -/
def load (read : String → Except ReadFailure String) (path : String) :
    Except LoadError Scenario := do
  parse (← (read path).mapError (.unreadable path))

end Scenario
end Strapdown
