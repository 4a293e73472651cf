import Strapdown.Yaml.Mark

/-!
The tokens of YAML text. The last one tells that the text ends, or that it cannot be read on.
-/

namespace Strapdown.Yaml

/-- How a scalar is written. -/
inductive Style
  | plain
  | singleQuoted
  | doubleQuoted
  | literal
  | folded
deriving DecidableEq

namespace Token

inductive Kind
  | versionDirective (major minor : Nat)
  /-- Lets a tag handle stand for the start of a tag. -/
  | tagDirective (handle expansion : String)
  | documentStart
  | documentEnd
  | blockSequenceStart
  | blockMappingStart
  | blockEnd
  | flowSequenceStart
  | flowSequenceEnd
  | flowMappingStart
  | flowMappingEnd
  | blockEntry
  | flowEntry
  | key
  | value
  | reference (name : String)
  | anchor (name : String)
  | tag (handle suffix : String)
  | scalar (style : Style) (text : String)
  | streamEnd
  /-- The text stops being YAML. -/
  | unreadable
deriving DecidableEq

end Token

/-- A token and the place where it starts. -/
structure Token where
  kind : Token.Kind
  mark : Mark
deriving DecidableEq

end Strapdown.Yaml
