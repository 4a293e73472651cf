import Strapdown.Yaml.Character

/-!
White space between the words of a scalar. Blanks on one line are kept; a line break with the blanks
around it folds into a space, and further breaks are kept in its place.
-/

namespace Strapdown.Yaml

structure Gap where
  /-- Blanks before any line break, the last one first. -/
  blanks : List Char
  broken : Bool
  /-- The first line break, unless an escape removed it. -/
  first : List Char
  /-- The line breaks after it, the last one first. -/
  more : List Char

namespace Gap

def empty : Gap := ⟨[], false, [], []⟩

/-- The gap that an escaped line break opens. -/
def escaped : Gap := ⟨[], true, [], []⟩

def isEmpty (g : Gap) : Bool := g.blanks.isEmpty && !g.broken

def addBlank (g : Gap) (c : Char) : Gap :=
  if g.broken then g else { g with blanks := c :: g.blanks }

def addBreak (g : Gap) (c : Char) : Gap :=
  if g.broken then { g with more := breakText c :: g.more }
  else ⟨[], true, [breakText c], []⟩

/-- What the gap puts between two words. -/
def text (g : Gap) : List Char :=
  if !g.broken then g.blanks.reverse
  else if g.first = ['\n'] then if g.more.isEmpty then [' '] else g.more.reverse
  else g.first ++ g.more.reverse

end Gap
end Strapdown.Yaml
