import Strapdown.Yaml.Token.BlockText
import Strapdown.Yaml.Token.Plain
import Strapdown.Yaml.Token.Property
import Strapdown.Yaml.Token.Quoted

/-!
Reading one token. Indentation opens and closes block collections, and a colon turns what stands
before it on its line into a key: the key token is inserted where that scalar or collection began.
-/

namespace Strapdown.Yaml

/-- A place where a key may have started, waiting for its colon. -/
structure PossibleKey where
  mark : Mark
  /-- How many tokens come before the key. -/
  position : Nat
  /-- In a block mapping nothing but a key can stand there. -/
  required : Bool

/-- The state of reading tokens. -/
structure Lexer where
  /-- The tokens so far, the last one first. -/
  tokens : List Token
  /-- How many tokens there are. -/
  count : Nat
  cursor : Cursor
  /-- The column of the innermost block collection, with `-1` outside all of them. -/
  indent : Int
  outerIndents : List Int
  keyAllowed : Bool
  key : Option PossibleKey
  /-- The possible keys around the flow collections that are open. -/
  outerKeys : List (Option PossibleKey)

namespace Lexer

def ofText (text : List Char) : Lexer where
  tokens := []
  count := 0
  cursor := ⟨text, .start⟩
  indent := -1
  outerIndents := []
  keyAllowed := true
  key := none
  outerKeys := []

def inFlow (s : Lexer) : Bool := !s.outerKeys.isEmpty

def mark (s : Lexer) : Mark := s.cursor.mark

/-- Puts a token behind so many others. -/
def insert (s : Lexer) (position : Nat) (kind : Token.Kind) (mark : Mark) : Lexer :=
  { s with
    tokens := s.tokens.insertIdx (s.count - position) ⟨kind, mark⟩
    count := s.count + 1 }

def push (s : Lexer) (kind : Token.Kind) (mark : Mark) : Lexer := s.insert s.count kind mark

/-- A key has to get its colon on its own line and within 1024 bytes. -/
def isStale (here : Mark) (key : PossibleKey) : Bool :=
  key.mark.line < here.line || key.mark.index + 1024 < here.index

/-- The possible key at the current level, if it can still get its colon. -/
def currentKey (s : Lexer) : Option PossibleKey := s.key.filter (!isStale s.mark ·)

/-- Whether a key was needed that can no longer get its colon. -/
def lacksKey (s : Lexer) : Bool :=
  (s.key :: s.outerKeys).any fun key => key.any fun key => key.required && isStale s.mark key

/-- Reading stops where a needed key is missing. -/
def checkKeys? (s : Lexer) : Option Lexer := if s.lacksKey then none else some s

/-- No key starts at the current place after all. -/
def dropKey? (s : Lexer) : Option Lexer :=
  if s.key.any (·.required) then none else some { s with key := none }

/-- Notes that a key may start here. -/
def noteKey? (s : Lexer) : Option Lexer :=
  if s.keyAllowed then do
    let s ← s.dropKey?
    let required := !s.inFlow && s.indent = s.mark.column
    return { s with key := some ⟨s.mark, s.count, required⟩ }
  else some s

/-- Opens a block collection if a column lies further in than the current one. -/
def openBlock (s : Lexer) (kind : Token.Kind) (mark : Mark) (position : Nat) : Lexer :=
  if !s.inFlow && s.indent < mark.column then
    { s.insert position kind mark with
      indent := mark.column
      outerIndents := s.indent :: s.outerIndents }
  else s

/-- Closes the block collections that lie further in than a column. -/
def closeBlocks (s : Lexer) (column : Int) : Lexer :=
  if s.inFlow then s else go s s.outerIndents
where
  go (s : Lexer) : List Int → Lexer
    | [] => s
    | outer :: more =>
      if column < s.indent then
        go { s.push .blockEnd s.mark with indent := outer, outerIndents := more } more
      else s

/-- Pushes a token for the next characters of the line and moves over them. -/
def take (s : Lexer) (kind : Token.Kind) (width : Nat) : Lexer :=
  { s.push kind s.mark with cursor := s.cursor.skip width }

/-- Ends all block collections before a directive, a document marker or the end. -/
def endBlocks? (s : Lexer) : Option Lexer := do
  let s ← (s.closeBlocks (-1)).dropKey?
  return { s with keyAllowed := false }

def directive? (s : Lexer) : Option Lexer := do
  let s ← s.endBlocks?
  let (kind, cursor) ← Property.directive? s.cursor
  return { s.push kind s.mark with cursor }

def documentMarker? (s : Lexer) (kind : Token.Kind) : Option Lexer := do
  return (← s.endBlocks?).take kind 3

def openFlow? (s : Lexer) (kind : Token.Kind) : Option Lexer := do
  let s ← s.noteKey?
  return { s.take kind 1 with key := none, outerKeys := s.key :: s.outerKeys, keyAllowed := true }

def closeFlow? (s : Lexer) (kind : Token.Kind) : Option Lexer := do
  let s ← s.dropKey?
  let s := { s.take kind 1 with keyAllowed := false }
  match s.outerKeys with
  | [] => return s
  | key :: outerKeys => return { s with key, outerKeys }

def flowComma? (s : Lexer) : Option Lexer := do
  return { (← s.dropKey?).take .flowEntry 1 with keyAllowed := true }

def blockItem? (s : Lexer) : Option Lexer := do
  if !s.inFlow && !s.keyAllowed then none else
  let s ← (s.openBlock .blockSequenceStart s.mark s.count).dropKey?
  return { s.take .blockEntry 1 with keyAllowed := true }

/-- A question mark before a key. -/
def explicitKey? (s : Lexer) : Option Lexer := do
  if !s.inFlow && !s.keyAllowed then none else
  let s ← (s.openBlock .blockMappingStart s.mark s.count).dropKey?
  return { s.take .key 1 with keyAllowed := !s.inFlow }

/-- A colon: it follows the key that was noted, an explicit key, or no key at all. -/
def value? (s : Lexer) : Option Lexer :=
  match s.currentKey with
  | some key =>
    let s := s.insert key.position .key key.mark
    let s := s.openBlock .blockMappingStart key.mark key.position
    some { s.take .value 1 with key := none, keyAllowed := false }
  | none =>
    if !s.inFlow && !s.keyAllowed then none
    else
      let s := s.openBlock .blockMappingStart s.mark s.count
      some { s.take .value 1 with keyAllowed := !s.inFlow }

/-- Something a key may start with, read by its own rule. -/
def keyPart? (s : Lexer) (read? : Cursor → Option (Token.Kind × Cursor)) : Option Lexer := do
  let s ← s.noteKey?
  let (kind, cursor) ← read? s.cursor
  return { s.push kind s.mark with cursor, keyAllowed := false }

/-- A name after its indicator. -/
def name? (s : Lexer) (kind : String → Token.Kind) : Option Lexer :=
  s.keyPart? fun c => do
    let (name, c) ← Property.name? (c.skip 1)
    return (kind name, c)

/-- A tag with what has to follow it. -/
def tag? (s : Lexer) : Option Lexer := s.keyPart? (Property.tag? s.inFlow)

def blockText? (s : Lexer) (folded : Bool) : Option Lexer := do
  let s ← s.dropKey?
  let (text, cursor) ← BlockText.read? folded s.indent (s.cursor.skip 1)
  let kind := .scalar (if folded then .folded else .literal) (String.ofList text)
  return { s.push kind s.mark with cursor, keyAllowed := true }

def quoted? (s : Lexer) (single : Bool) : Option Lexer :=
  s.keyPart? fun c => do
    let (text, cursor) ← Quoted.read? single [] .empty (c.rest.drop 1) c.mark.next
    return (.scalar (if single then .singleQuoted else .doubleQuoted) (String.ofList text), cursor)

def plain? (s : Lexer) : Option Lexer := do
  let s ← s.noteKey?
  let reading ← Plain.read? s.inFlow (s.indent + 1).toNat [] .empty s.cursor.rest s.mark
  return { s.push (.scalar .plain (String.ofList reading.text)) s.mark with
    cursor := reading.after, keyAllowed := reading.broken }

/-- Whether a character that is no blank can start a plain scalar. -/
def startsPlain (flow : Bool) (c : Char) (cs : List Char) : Bool :=
  if c = '-' then !cs.head?.any isBlank
  else if c = '?' || c = ':' then !flow && !atSpace cs
  else !isSpace c && !isFlowIndicator c && !"#&*!|>\x27\x22%@\x60".contains c

/-- Reads the token at a character. -/
def token? (s : Lexer) (c : Char) (cs : List Char) : Option Lexer :=
  if s.mark.column = 0 && c = '%' then s.directive?
  else if s.mark.column = 0 && atDocumentMarker (c :: cs) then
    s.documentMarker? (if c = '-' then .documentStart else .documentEnd)
  else if c = '[' then s.openFlow? .flowSequenceStart
  else if c = '\x7b' then s.openFlow? .flowMappingStart
  else if c = ']' then s.closeFlow? .flowSequenceEnd
  else if c = '\x7d' then s.closeFlow? .flowMappingEnd
  else if c = ',' then s.flowComma?
  else if c = '-' && atSpace cs then s.blockItem?
  else if c = '?' && (s.inFlow || atSpace cs) then s.explicitKey?
  else if c = ':' && (s.inFlow || atSpace cs) then s.value?
  else if c = '*' then s.name? .reference
  else if c = '&' then s.name? .anchor
  else if c = '!' then s.tag?
  else if c = '|' && !s.inFlow then s.blockText? false
  else if c = '>' && !s.inFlow then s.blockText? true
  else if c = '\x27' then s.quoted? true
  else if c = '\x22' then s.quoted? false
  else if startsPlain s.inFlow c cs then s.plain?
  else none

/-- Moves to the next token and closes what the indentation there closes. -/
def advance? (s : Lexer) : Option Lexer := do
  let arrival := skipToToken s.inFlow s.keyAllowed false s.cursor.rest s.mark
  let s ← { s with cursor := arrival.cursor, keyAllowed := arrival.keyAllowed }.checkKeys?
  return s.closeBlocks s.mark.column

/-- Reads the next token; there is none at the end. -/
def next? (s : Lexer) : Option Lexer := do
  let s ← s.advance?
  match s.cursor.rest with
  | [] => none
  | c :: cs => (← s.token? c cs).checkKeys?

end Lexer
end Strapdown.Yaml
