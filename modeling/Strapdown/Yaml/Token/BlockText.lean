import Strapdown.Yaml.Token.Line
import Strapdown.Decimal.Literal

/-!
Block scalars: indented lines after a header. Literal scalars keep their lines; folded ones join
lines that start without a blank.
-/

namespace Strapdown.Yaml.BlockText

/-- What happens to the line breaks at the end. -/
inductive Chomping
  | strip
  | clip
  | keep
deriving DecidableEq

structure Header where
  chomping : Chomping
  /-- The indentation below the parent's, if the header gives it. -/
  indent : Option Nat

def chomping? (c : Char) : Option Chomping :=
  if c = '+' then some .keep else if c = '-' then some .strip else none

/-- Reads the indicators after the bar or the angle bracket. -/
def header? (c : Cursor) : Option (Header × Cursor) :=
  let chomping (c : Cursor) : Option Chomping × Cursor :=
    match c.rest.head?.bind chomping? with
    | some chomping => (some chomping, c.skip 1)
    | none => (none, c)
  let (before, c) := chomping c
  let (digit, c) := match c.rest with
    | d :: _ => if d.isDigit then (some (d.toNat - '0'.toNat), c.skip 1) else (none, c)
    | [] => (none, c)
  let (after, c) := if before.isNone && digit.isSome then chomping c else (none, c)
  if digit = some 0 then none else some (⟨(before <|> after).getD .clip, digit⟩, c)

theorem left_header?_le {c after : Cursor} {header : Header}
    (h : header? c = some (header, after)) : after.left ≤ c.left := by
  simp only [header?] at h
  grind [Cursor.left_skip]

/-- Blank lines, and the indentation of the line after them. -/
structure Blanks where
  breaks : List Char
  /-- The largest column that blanks lead to. -/
  widest : Nat
  after : Cursor

/--
Skips blank lines and indentation, up to a column if one is given. The line breaks so far are given
in reverse.
-/
def skipBlanks? (indent : Option Nat) (breaks : List Char) (widest : Nat) :
    List Char → Mark → Option Blanks
  | [], m => some ⟨breaks.reverse, max widest m.column, ⟨[], m⟩⟩
  | '\r' :: '\n' :: cs, m =>
    skipBlanks? indent ('\n' :: breaks) (max widest m.column) cs (m.newline 2)
  | c :: cs, m =>
    let indented := indent.all (m.column < ·)
    if isBreak c then
      skipBlanks? indent (breakText c :: breaks) (max widest m.column) cs (m.newline c.utf8Size)
    else if indented && c = ' ' then skipBlanks? indent breaks widest cs m.next
    else if indented && c = '\t' then none
    else some ⟨breaks.reverse, max widest m.column, ⟨c :: cs, m⟩⟩

theorem left_skipBlanks?_le {indent : Option Nat} {breaks : List Char} {widest : Nat}
    {cs : List Char} {m : Mark} {blanks : Blanks}
    (h : skipBlanks? indent breaks widest cs m = some blanks) :
    blanks.after.left ≤ cs.length := by
  fun_induction skipBlanks? indent breaks widest cs m <;> grind [Cursor.left]

/-- The content read so far, the line break after it and the blank lines after that. -/
structure Content where
  /-- The last character comes first. -/
  text : List Char
  lastBreak : List Char
  lastBlank : Bool
  blankLines : List Char

/-- Adds the next line, whose first character is given, after the breaks before it. -/
def Content.addLine (content : Content) (folded blank : Bool) (line : List Char) : List Char :=
  let joined := folded && content.lastBreak = ['\n'] && !content.lastBlank && !blank
  let separator :=
    if joined then if content.blankLines.isEmpty then [' '] else [] else content.lastBreak
  (separator ++ content.blankLines ++ line).reverse ++ content.text

/-- Reads the lines that start at the column of the content. -/
def lines? (folded : Bool) (indent : Nat) (content : Content) (c : Cursor) :
    Option (Content × Cursor) :=
  if c.mark.column = indent && !c.rest.isEmpty then
    let blank := c.rest.head?.any isBlank
    let line := c.span (!isBreak ·)
    let ending := line.2.takeBreak
    match _hblanks : skipBlanks? (some indent) [] 0 ending.2.rest ending.2.mark with
    | none => none
    | some blanks =>
      lines? folded indent
        ⟨content.addLine folded blank line.1, ending.1, blank, blanks.breaks⟩ blanks.after
  else some (content, c)
termination_by c.left
decreasing_by
  exact Nat.lt_of_le_of_lt (left_skipBlanks?_le _hblanks) (Cursor.left_endOfLine_lt (by simp_all))

theorem left_lines?_le {folded : Bool} {indent : Nat} {content read : Content} {c after : Cursor}
    (h : lines? folded indent content c = some (read, after)) : after.left ≤ c.left := by
  fun_induction lines? folded indent content c with
  | case1 => cases h
  | case2 content c hline blank line ending blanks hblanks ih =>
    have := Cursor.left_endOfLine_lt (c := c) (by simp_all)
    have := left_skipBlanks?_le hblanks
    grind [Cursor.left]
  | case3 => grind

/-- Reads a block scalar after its indicator, inside a collection at column `parent`. -/
def read? (folded : Bool) (parent : Int) (c : Cursor) : Option (List Char × Cursor) := do
  let (header, c) ← header? c
  let c ← c.finishLine?
  let given := header.indent.map fun n => (max parent 0).toNat + n
  let blanks ← skipBlanks? given [] 0 c.rest c.mark
  let indent := given.getD (max blanks.widest (max (parent + 1) 1).toNat)
  let (content, c) ← lines? folded indent ⟨[], [], false, blanks.breaks⟩ blanks.after
  let ending := match header.chomping with
    | .strip => []
    | .clip => content.lastBreak
    | .keep => content.lastBreak ++ content.blankLines
  return (content.text.reverse ++ ending, c)

theorem left_read?_le {folded : Bool} {parent : Int} {c after : Cursor} {text : List Char}
    (h : read? folded parent c = some (text, after)) : after.left ≤ c.left := by
  simp only [read?, Option.bind_eq_bind, Option.pure_def, Option.bind_eq_some_iff] at h
  obtain ⟨header, hheader, line, hline, blanks, hblanks, read, hread, h⟩ := h
  have := left_header?_le hheader
  have := Cursor.left_finishLine?_le hline
  have := left_skipBlanks?_le hblanks
  have := left_lines?_le hread
  grind [Cursor.left]

end Strapdown.Yaml.BlockText
