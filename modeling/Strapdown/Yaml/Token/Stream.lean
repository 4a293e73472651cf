import Strapdown.Yaml.Token.Progress

/-! All tokens of a text, up to its end or to the place where it cannot be read on. -/

namespace Strapdown.Yaml

namespace Lexer

/-- Closes what is open at the end of the text, which counts as the start of a line. -/
def finish? (s : Lexer) : Option (List Token) := do
  let s ← s.advance?
  if !s.cursor.rest.isEmpty then none else
  let mark := if s.mark.column = 0 then s.mark else s.mark.newline 0
  let s ← { s with cursor := ⟨[], mark⟩ }.endBlocks?
  let s ← s.checkKeys?
  return (s.push .streamEnd s.mark).tokens.reverse

/--
The tokens of a text that cannot be read on. None stands fast from a possible key on, because the
token for the key itself may still go before it.
-/
def stop (s : Lexer) : List Token :=
  let possible := (s.key :: s.outerKeys).filterMap (·.filter (!isStale s.mark ·))
  let certain := (possible.map (·.position)).foldl min s.count
  (s.tokens.drop (s.count - certain)).reverse ++ [⟨.unreadable, s.mark⟩]

/-- Reads all tokens that are left. -/
def run (s : Lexer) : List Token :=
  match _h : s.next? with
  | some next => next.run
  | none => s.finish?.getD s.stop
termination_by s.cursor.left
decreasing_by exact left_next?_lt _h

end Lexer

/-- The tokens of a text, all of whose characters have to be allowed. -/
def Token.ofText (text : List Char) : List Token :=
  if text.all isAllowed then (Lexer.ofText text).run else [⟨.unreadable, .start⟩]

end Strapdown.Yaml
