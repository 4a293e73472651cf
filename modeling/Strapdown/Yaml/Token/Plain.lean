import Strapdown.Yaml.Mark
import Strapdown.Yaml.Token.Gap

/-!
Scalars without quotes. They end before a comment, a document marker, a colon that ends a key, a
line that is indented too little, and in flow collections before an indicator.
-/

namespace Strapdown.Yaml.Plain

/-- A plain scalar and what follows it and the white space after it. -/
structure Reading where
  text : List Char
  /-- Whether a line break follows the last word. -/
  broken : Bool
  after : Cursor

/-- Whether a scalar ends before a word that starts here. -/
def endsBefore (flow : Bool) (indent : Nat) (cs : List Char) (m : Mark) : Bool :=
  (!flow && m.column < indent) || (m.column = 0 && atDocumentMarker cs) || cs.head? = some '#'

/-- Whether a colon in a flow collection runs into an indicator. -/
def colonClash : List Char → Bool
  | ':' :: c :: _ => isFlowIndicator c || c = '?'
  | _ => false

/-- Whether a scalar ends before this character wherever it stands. -/
def endsAt (flow : Bool) : List Char → Bool
  | [] => true
  | c :: cs => (c = ':' && atSpace cs) || (flow && isFlowIndicator c)

/--
Reads on from a scalar whose text so far is given in reverse. `indent` is the least column of a
continuation line outside flow collections.
-/
def read? (flow : Bool) (indent : Nat) (text : List Char) (gap : Gap) :
    List Char → Mark → Option Reading
  | [], m => some ⟨text.reverse, gap.broken, ⟨[], m⟩⟩
  | '\r' :: '\n' :: cs, m => read? flow indent text (gap.addBreak '\n') cs (m.newline 2)
  | c :: cs, m =>
    if isBreak c then read? flow indent text (gap.addBreak c) cs (m.newline c.utf8Size)
    else if isBlank c then
      if gap.broken && m.column < indent && c = '\t' then none
      else read? flow indent text (gap.addBlank c) cs m.next
    else if (!gap.isEmpty && endsBefore flow indent (c :: cs) m) then
      some ⟨text.reverse, gap.broken, ⟨c :: cs, m⟩⟩
    else if flow && colonClash (c :: cs) then none
    else if endsAt flow (c :: cs) then some ⟨text.reverse, gap.broken, ⟨c :: cs, m⟩⟩
    else read? flow indent (c :: (gap.text.reverse ++ text)) .empty cs (m.after c)

theorem left_read?_le {flow : Bool} {indent : Nat} {text : List Char} {gap : Gap}
    {cs : List Char} {m : Mark} {reading : Reading}
    (h : read? flow indent text gap cs m = some reading) : reading.after.left ≤ cs.length := by
  fun_induction read? flow indent text gap cs m <;> grind [Cursor.left]

/-- A scalar that can start here takes at least one character. -/
theorem left_read?_lt {flow : Bool} {indent : Nat} {c : Char} {cs : List Char} {m : Mark}
    {reading : Reading} (hspace : ¬isSpace c) (hend : ¬endsAt flow (c :: cs))
    (h : read? flow indent [] .empty (c :: cs) m = some reading) :
    reading.after.left < (c :: cs).length := by
  unfold read? at h
  split at h
  · rename_i heq
    cases heq
  · rename_i heq
    cases heq
    simp [isSpace, isBreak] at hspace
  · rename_i heq
    cases heq
    have := @left_read?_le flow indent
    grind [isSpace, Gap.isEmpty, Gap.empty]

end Strapdown.Yaml.Plain
