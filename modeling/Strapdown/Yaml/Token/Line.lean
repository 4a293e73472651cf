import Strapdown.Yaml.Mark
import Strapdown.Yaml.Character

/-! Ends of lines, and what may stand between two tokens. -/

namespace Strapdown.Yaml

namespace Cursor

def skipBlanks (c : Cursor) : Cursor := (c.span isBlank).2

/-- Takes one line break, if there is one, as it stands in the text of a scalar. -/
def takeBreak (c : Cursor) : List Char × Cursor :=
  match c.rest with
  | '\r' :: '\n' :: cs => (['\n'], ⟨cs, c.mark.newline 2⟩)
  | b :: cs => if isBreak b then ([breakText b], ⟨cs, c.mark.newline b.utf8Size⟩) else ([], c)
  | [] => ([], c)

/-- Moves to the next line if only blanks and a comment are left on this one. -/
def finishLine? (c : Cursor) : Option Cursor :=
  let c := c.skipBlanks
  let c := if c.rest.head? = some '#' then (c.span (!isBreak ·)).2 else c
  match c.rest with
  | [] => some c
  | b :: _ => if isBreak b then some c.takeBreak.2 else none

theorem left_skipBlanks_le (c : Cursor) : c.skipBlanks.left ≤ c.left := c.left_span_le isBlank

theorem left_takeBreak_le (c : Cursor) : c.takeBreak.2.left ≤ c.left := by
  simp only [takeBreak, left]
  grind

theorem left_finishLine?_le {c d : Cursor} (h : c.finishLine? = some d) : d.left ≤ c.left := by
  simp only [finishLine?] at h
  grind [left_skipBlanks_le, left_span_le, left_takeBreak_le]

/-- The rest of a line with its line break is not empty. -/
theorem left_endOfLine_lt {c : Cursor} (h : c.rest ≠ []) :
    (c.span (!isBreak ·)).2.takeBreak.2.left < c.left := by
  obtain ⟨_ | ⟨b, cs⟩, m⟩ := c
  · contradiction
  by_cases hb : isBreak b
  · have hnone : (b :: cs).takeWhile (!isBreak ·) = [] := by simp [hb]
    simp only [span, skip, takeBreak, left, hnone, List.length_nil, List.drop_zero]
    grind
  · have hsome : (b :: cs).takeWhile (!isBreak ·) = b :: cs.takeWhile (!isBreak ·) := by simp [hb]
    refine Nat.lt_of_le_of_lt (left_takeBreak_le _) ?_
    rw [span, hsome, left_skip, List.length_cons, left, List.length_cons]
    omega

end Cursor

/-- Where the next token starts, and whether a key without a question mark may start there. -/
structure Arrival where
  keyAllowed : Bool
  cursor : Cursor

/--
Skips blanks, comments, line breaks, and a byte order mark at the start of a line. A tab separates
tokens only where no key may start. Outside flow collections a new line lets a key start.
-/
def skipToToken (flow keyAllowed comment : Bool) : List Char → Mark → Arrival
  | [], m => ⟨keyAllowed, ⟨[], m⟩⟩
  | '\r' :: '\n' :: cs, m => skipToToken flow (keyAllowed || !flow) false cs (m.newline 2)
  | c :: cs, m =>
    if isBreak c then skipToToken flow (keyAllowed || !flow) false cs (m.newline c.utf8Size)
    else if comment || c = ' ' || c = '\t' && (flow || !keyAllowed) then
      skipToToken flow keyAllowed comment cs (m.after c)
    else if c = '#' then skipToToken flow keyAllowed true cs m.next
    else if c = byteOrderMark && m.column = 0 then skipToToken flow keyAllowed false cs (m.after c)
    else ⟨keyAllowed, ⟨c :: cs, m⟩⟩

theorem left_skipToToken_le (flow keyAllowed comment : Bool) (cs : List Char) (m : Mark) :
    (skipToToken flow keyAllowed comment cs m).cursor.left ≤ cs.length := by
  fun_induction skipToToken flow keyAllowed comment cs m <;> grind [Cursor.left]

end Strapdown.Yaml
