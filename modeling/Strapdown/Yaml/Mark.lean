/-! Places in a text, and the text that is left from a place on. -/

namespace Strapdown.Yaml

/-- A place in a text. All three counts start at zero. -/
structure Mark where
  /-- Bytes before the place. -/
  index : Nat
  line : Nat
  /-- Characters before it on its line. -/
  column : Nat
deriving DecidableEq

namespace Mark

def start : Mark := ⟨0, 0, 0⟩

/-- So many ASCII characters further on the same line. -/
def skip (m : Mark) (n : Nat) : Mark := ⟨m.index + n, m.line, m.column + n⟩

/-- After an ASCII character. -/
def next (m : Mark) : Mark := m.skip 1

/-- After a character that is no line break. -/
def after (m : Mark) (c : Char) : Mark := ⟨m.index + c.utf8Size, m.line, m.column + 1⟩

/-- The start of the next line, after a line break of so many bytes. -/
def newline (m : Mark) (width : Nat) : Mark := ⟨m.index + width, m.line + 1, 0⟩

end Mark

/-- The rest of a text and where it starts. -/
structure Cursor where
  rest : List Char
  mark : Mark

namespace Cursor

/-- How many characters are left. -/
def left (c : Cursor) : Nat := c.rest.length

/-- Moves over characters of the current line. -/
def skip (c : Cursor) (n : Nat) : Cursor :=
  ⟨c.rest.drop n, (c.rest.take n).foldl Mark.after c.mark⟩

/-- Splits off the characters of a class; line breaks are in no such class. -/
def span (c : Cursor) (p : Char → Bool) : List Char × Cursor :=
  let taken := c.rest.takeWhile p
  (taken, c.skip taken.length)

theorem left_skip (c : Cursor) (n : Nat) : (c.skip n).left = c.left - n := by simp [left, skip]

theorem left_span_le (c : Cursor) (p : Char → Bool) : (c.span p).2.left ≤ c.left := by
  simp [span, left_skip]

end Cursor
end Strapdown.Yaml
