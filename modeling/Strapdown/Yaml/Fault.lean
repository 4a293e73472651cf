import Strapdown.Decimal.Style
import Strapdown.Text.Quoted
import Strapdown.Yaml.Meaning

/-! What can be wrong with the content of a document, and how that is said. -/

namespace Strapdown.Yaml
open Float.Model (UnpackedFloat)

/-- What is wrong at a place of a document. -/
inductive Problem
  | wrongType (found : Found) (expected : String)
  | wrongValue (text expected : String)
  | wrongLength (count : Nat) (expected : String)
  | missingField (name : String)
  | duplicateField (name : String)
  /-- The text stops being a single YAML document. -/
  | unreadable

/-- A step from a value to one inside it. -/
inductive Step
  | key (name : String)
  | index (position : Nat)
  /-- A key that is written as an alias. -/
  | unnamed

/-- A problem, the path to its place with the last step first, and the place in the text. -/
structure Fault where
  problem : Problem
  path : List Step
  mark : Mark

/-- All digits before the point are written out, and a whole number has a zero after it. -/
def messageStyle : Decimal.Style := { Decimal.Style.plain with wholeEnd := ['.', '0'] }

namespace Found

def integerText (n : Int) : String :=
  let width :=
    if -(Nat.pow 2 63 : Int) ≤ n ∧ n < UInt64.size then ""
    else if n < 0 then " as i128" else " as u128"
  s!"integer `{n}`" ++ width

def text : Found → String
  | null => "unit value"
  | boolean value => s!"boolean `{value}`"
  | integer value => integerText value
  | number value =>
    let digits := String.ofList (messageStyle.chars .binary64 value)
    s!"floating point `{digits}`"
  | string value => s!"string {Text.quote value}"
  | sequence => "sequence"
  | mapping => "map"

end Found

def Core.expectation : Core → String
  | null => "null"
  | boolean => "a boolean"
  | integer => "an integer"
  | number => "a float"

def Problem.message : Problem → String
  | wrongType found expected => s!"invalid type: {found.text}, expected {expected}"
  | wrongValue text expected => s!"invalid value: string {Text.quote text}, expected {expected}"
  | wrongLength count expected => s!"invalid length {count}, expected {expected}"
  | missingField name => s!"missing field `{name}`"
  | duplicateField name => s!"duplicate field `{name}`"
  | unreadable => "the text is not a single YAML document"

/-- The names and positions from the root to a value. -/
def pathText : List Step → String
  | [] => ""
  | step :: outer =>
    let before := pathText outer
    let dot := if outer.isEmpty then "" else "."
    match step with
    | .index position => s!"{before}[{position}]"
    | .key name => before ++ dot ++ name
    | .unnamed => before ++ dot ++ "?"

/-- The problem with its path and its place, except that the root and the first place go unsaid. -/
def Fault.message (f : Fault) : String :=
  let path := if f.path.isEmpty then "" else pathText f.path ++ ": "
  let place :=
    if f.mark.line = 0 ∧ f.mark.column = 0 then ""
    else s!" at line {f.mark.line + 1} column {f.mark.column + 1}"
  path ++ f.problem.message ++ place

end Strapdown.Yaml
