import Strapdown.Yaml.Mark
import Strapdown.Yaml.Token.Gap
import Strapdown.Decimal.Literal

/-! Scalars in single or double quotes. Lines fold as in plain scalars. -/

namespace Strapdown.Yaml.Quoted

/-- A character given by its code in so many hexadecimal digits. -/
def hexadecimal? (width : Nat) (cs : List Char) : Option (Char × Nat) := do
  let digits := cs.take width
  let code ← Decimal.digitsValue? 16 digits
  if digits.length < width ∨ 0xd800 ≤ code ∧ code ≤ 0xdfff ∨ 0x10ffff < code then none
  else some (Char.ofNat code, width + 1)

/-- The character of an escape after its backslash, and how many characters the escape takes. -/
def escape? : List Char → Option (Char × Nat)
  | [] => none
  | c :: cs =>
    match c with
    | '0' => some ('\x00', 1)
    | 'a' => some ('\x07', 1)
    | 'b' => some ('\x08', 1)
    | 't' => some ('\t', 1)
    | '\t' => some ('\t', 1)
    | 'n' => some ('\n', 1)
    | 'v' => some ('\x0b', 1)
    | 'f' => some ('\x0c', 1)
    | 'r' => some ('\r', 1)
    | 'e' => some ('\x1b', 1)
    | ' ' => some (' ', 1)
    | '\x22' => some ('\x22', 1)
    | '/' => some ('/', 1)
    | '\\' => some ('\\', 1)
    | 'N' => some ('\x85', 1)
    | '_' => some ('\xa0', 1)
    | 'L' => some ('\u2028', 1)
    | 'P' => some ('\u2029', 1)
    | 'x' => hexadecimal? 2 cs
    | 'u' => hexadecimal? 4 cs
    | 'U' => hexadecimal? 8 cs
    | _ => none

def mark (single : Bool) : Char := if single then '\x27' else '\x22'

/-- Reads up to the closing quote; the text so far is given in reverse. -/
def read? (single : Bool) (text : List Char) (gap : Gap) (cs : List Char) (m : Mark) :
    Option (List Char × Cursor) :=
  match cs with
  | [] => none
  | '\r' :: '\n' :: cs => read? single text (gap.addBreak '\n') cs (m.newline 2)
  | c :: cs =>
    let grown := gap.text.reverse ++ text
    if isBreak c then read? single text (gap.addBreak c) cs (m.newline c.utf8Size)
    else if isBlank c then read? single text (gap.addBlank c) cs m.next
    else if m.column = 0 && atDocumentMarker (c :: cs) then none
    else if single && c = mark single && cs.head? = some (mark single) then
      read? single (c :: grown) .empty (cs.drop 1) (m.skip 2)
    else if c = mark single then some (grown.reverse, ⟨cs, m.next⟩)
    else if !single && c = '\\' then
      match cs with
      | '\r' :: '\n' :: cs => read? single grown .escaped cs (m.next.newline 2)
      | b :: cs =>
        if isBreak b then read? single grown .escaped cs (m.next.newline b.utf8Size)
        else match escape? (b :: cs) with
          | none => none
          | some (e, width) =>
            read? single (e :: grown) .empty ((b :: cs).drop width) (m.skip (width + 1))
      | [] => none
    else read? single (c :: grown) .empty cs (m.after c)
termination_by cs.length
decreasing_by all_goals simp <;> omega

theorem left_read?_lt {single : Bool} {text read : List Char} {gap : Gap} {cs : List Char}
    {m : Mark} {after : Cursor} (h : read? single text gap cs m = some (read, after)) :
    after.left < cs.length := by
  fun_induction read? single text gap cs m <;> grind [Cursor.left]

end Strapdown.Yaml.Quoted
