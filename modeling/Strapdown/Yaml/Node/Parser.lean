import Strapdown.Yaml.Node
import Strapdown.Yaml.Token.Stream

/-!
The tree of a text. A text holds one document, or none, which counts as an empty one. Of any other
text the tree shows what comes before the first place where it is no such text.
-/

namespace Strapdown.Yaml

/-- The state of reading a tree. -/
structure Parser where
  /-- The tokens that are left. -/
  tokens : List Token
  /-- How many they are. -/
  left : Nat
  left_eq : left = tokens.length
  /-- The slot of each anchor so far. -/
  anchors : List (String × Nat)
  /-- What the tag handles of the document stand for. -/
  handles : List (String × String)

namespace Parser

def ofTokens (tokens : List Token) : Parser where
  tokens
  left := tokens.length
  left_eq := rfl
  anchors := []
  handles := []

/-- What is read, and the tokens after it, unless the text cannot be read on inside. -/
structure Reading (α : Type) where
  value : α
  rest : Option Parser

def Reading.map {α β : Type} (f : α → β) (r : Reading α) : Reading β := ⟨f r.value, r.rest⟩

def kind (s : Parser) : Token.Kind :=
  match s.tokens with
  | [] => .unreadable
  | token :: _ => token.kind

def mark (s : Parser) : Mark :=
  match s.tokens with
  | [] => .start
  | token :: _ => token.mark

/-- Reads no node here. -/
def stop (s : Parser) : Reading Node := ⟨.unreadable s.mark, none⟩

/-- Reads no further item here. -/
def stopItems (s : Parser) : Reading (List Node) := ⟨[.unreadable s.mark], none⟩

/-- Reads no further entry here. -/
def stopEntries (s : Parser) : Reading (List (Node × Node)) :=
  ⟨[(.unreadable s.mark, .unreadable s.mark)], none⟩

/-- An entry whose value cannot be read. -/
def keyAlone (key : Node) (s : Parser) : Node × Node := (key, .unreadable s.mark)

/-- Where the value starts that an indicator announces and that is missing. -/
def afterIndicator (s : Parser) : Mark := s.mark.next

def next (s : Parser) : Parser :=
  { s with
    tokens := s.tokens.drop 1
    left := s.left - 1
    left_eq := by rw [s.left_eq, List.length_drop] }

theorem left_next_le (s : Parser) : s.next.left ≤ s.left := Nat.sub_le s.left 1

theorem left_next_lt {s : Parser} {kind : Token.Kind} (h : s.kind = kind)
    (hkind : kind ≠ .unreadable) : s.next.left < s.left := by
  cases htokens : s.tokens with
  | nil =>
    rw [Parser.kind, htokens] at h
    exact absurd h.symm hkind
  | cons token tokens =>
    have hleft : 0 < s.left := by
      rw [s.left_eq, htokens]
      exact Nat.succ_pos _
    exact Nat.sub_lt hleft Nat.one_pos

/--
Gives an anchor its slot, the number of names known so far. A name that is used again moves to its
new slot, which the next new name then takes over.
-/
def define (s : Parser) (name : String) : Nat × Parser :=
  let slot := s.anchors.length
  (slot, { s with anchors := (name, slot) :: s.anchors.filter (·.1 ≠ name) })

/-- The anchor and the tag before a node. -/
structure Properties where
  anchor : Option String
  tag : Option (String × String)

def anchor? (s : Parser) : Option String × Parser :=
  match s.kind with
  | .anchor name => (some name, s.next)
  | _ => (none, s)

def tag? (s : Parser) : Option (String × String) × Parser :=
  match s.kind with
  | .tag handle suffix => (some (handle, suffix), s.next)
  | _ => (none, s)

/-- Takes an anchor and a tag in either order. -/
def properties (s : Parser) : Properties × Parser :=
  match s.anchor? with
  | (some name, s) =>
    let (tag, s) := s.tag?
    (⟨some name, tag⟩, s)
  | (none, s) =>
    let (tag, s) := s.tag?
    if tag.isNone then (⟨none, none⟩, s)
    else
      let (name, s) := s.anchor?
      (⟨name, tag⟩, s)

/-- The full name of a tag; its handle has to be known. -/
def tagName? (s : Parser) : Option (String × String) → Option (Option String)
  | none => some none
  | some (handle, suffix) =>
    if handle.isEmpty then some (some suffix)
    else (s.handles.lookup handle).map fun expansion => some (expansion ++ suffix)

/-- The tag of a scalar: an exclamation mark alone counts as none. -/
def scalarTag (tag : Option String) : Option String := if tag = some "!" then none else tag

/-- Whether an indicator is followed by nothing, in a block sequence. -/
def endsEntry (indentless : Bool) : Token.Kind → Bool
  | .blockEntry | .blockEnd => true
  | .key | .value => indentless
  | _ => false

/-- Whether an indicator is followed by nothing, in a block mapping. -/
def endsPair : Token.Kind → Bool
  | .key | .value | .blockEnd => true
  | _ => false

/-- Whether a colon is followed by nothing, in a flow collection. -/
def endsFlowValue (close kind : Token.Kind) : Bool := kind = .flowEntry || kind = close

/-- Whether a question mark is followed by nothing, in a flow collection. -/
def endsFlowKey (close kind : Token.Kind) : Bool :=
  kind = .value || endsFlowValue close kind

/-- Where a node stands: in a block, in a pair of one, where a sequence needs no indentation, or in
flow. -/
inductive Place
  | block
  | blockPair
  | flow
deriving DecidableEq

mutual

/-- A node that is there, with its properties. -/
def node (place : Place) (s : Parser) : Reading Node :=
  match s.kind with
  | .reference name =>
    match s.anchors.lookup name with
    | none => s.stop
    | some slot => ⟨.reference s.mark slot, some s.next⟩
  | _ =>
    let (properties, inner) := s.properties
    match s.tagName? properties.tag with
    | none => s.stop
    | some tag =>
      let (slot, inner) := match properties.anchor with
        | none => (none, inner)
        | some name =>
          let (slot, inner) := inner.define name
          (some slot, inner)
      if inner.left ≤ s.left then
        content place s.mark slot tag (properties.anchor.isSome || tag.isSome) inner
      else s.stop
termination_by 4 * s.left + 2
decreasing_by omega

/-- A node after its properties; with properties it may be empty. -/
def content (place : Place) (mark : Mark) (slot : Option Nat) (tag : Option String)
    (mayBeEmpty : Bool) (s : Parser) : Reading Node :=
  match _h : s.kind with
  | .scalar style text => ⟨.scalar mark slot ⟨text, style, scalarTag tag⟩, some s.next⟩
  | .flowSequenceStart => (flowItems true s.next).map (.sequence mark slot)
  | .flowMappingStart => (flowPairs true s.next).map (.mapping mark slot)
  | kind =>
    if place = .blockPair && kind = .blockEntry then
      (blockItems true s).map (.sequence mark slot)
    else if place ≠ .flow && kind = .blockSequenceStart then
      (blockItems false s.next).map (.sequence mark slot)
    else if place ≠ .flow && kind = .blockMappingStart then
      (blockPairs s.next).map (.mapping mark slot)
    else if mayBeEmpty && kind ≠ .unreadable then
      ⟨.scalar mark slot ⟨"", .plain, tag⟩, some s⟩
    else s.stop
termination_by 4 * s.left + 1
decreasing_by
  · have := left_next_lt _h (by simp)
    omega
  · have := left_next_lt _h (by simp)
    omega
  · omega
  · have := s.left_next_le
    omega
  · have := s.left_next_le
    omega

/-- The items of a block sequence. One that is not indented ends at any other token. -/
def blockItems (indentless : Bool) (s : Parser) : Reading (List Node) :=
  match _h : s.kind with
  | .blockEntry =>
    let item : Reading Node :=
      if endsEntry indentless s.next.kind then ⟨.empty s.afterIndicator, some s.next⟩
      else node .block s.next
    match item.rest with
    | none => ⟨[item.value], none⟩
    | some rest =>
      if rest.left < s.left then (blockItems indentless rest).map (item.value :: ·)
      else ⟨[item.value], none⟩
  | kind =>
    if indentless && kind ≠ .unreadable then ⟨[], some s⟩
    else if kind = .blockEnd then ⟨[], some s.next⟩
    else s.stopItems
termination_by 4 * s.left
decreasing_by
  · have := left_next_lt _h (by simp)
    omega
  · omega

/-- The entries of a block mapping. -/
def blockPairs (s : Parser) : Reading (List (Node × Node)) :=
  match _h : s.kind with
  | .blockEnd => ⟨[], some s.next⟩
  | .key =>
    let key : Reading Node :=
      if endsPair s.next.kind then ⟨.empty s.afterIndicator, some s.next⟩
      else node .blockPair s.next
    match key.rest with
    | none => ⟨[keyAlone key.value s], none⟩
    | some afterKey =>
      if afterKey.left < s.left then
        let value := blockValue afterKey
        match value.rest with
        | none => ⟨[(key.value, value.value)], none⟩
        | some rest =>
          if rest.left ≤ afterKey.left then
            (blockPairs rest).map ((key.value, value.value) :: ·)
          else ⟨[(key.value, value.value)], none⟩
      else ⟨[keyAlone key.value s], none⟩
  | _ => s.stopEntries
termination_by 4 * s.left
decreasing_by
  · have := left_next_lt _h (by simp)
    omega
  · omega
  · omega

/-- The value after a key of a block mapping; it may be missing with its colon. -/
def blockValue (s : Parser) : Reading Node :=
  match _h : s.kind with
  | .value =>
    if endsPair s.next.kind then ⟨.empty s.afterIndicator, some s.next⟩
    else node .blockPair s.next
  | .unreadable => s.stop
  | _ => ⟨.empty s.mark, some s⟩
termination_by 4 * s.left
decreasing_by
  have := left_next_lt _h (by simp)
  omega

/-- The items of a flow sequence, up to its end. A key makes a mapping of one entry. -/
def flowItems (first : Bool) (s : Parser) : Reading (List Node) :=
  if s.kind = .flowSequenceEnd then ⟨[], some s.next⟩
  else
    let entry : Option Parser :=
      if first then some s else if s.kind = .flowEntry then some s.next else none
    match entry with
    | none => s.stopItems
    | some entry =>
      if entry.kind = .flowSequenceEnd then ⟨[], some entry.next⟩
      else if entry.left ≤ s.left then
        let item : Reading Node :=
          if _h : entry.kind = .key then
            (flowPair true entry.next).map fun pair => .mapping entry.mark none [pair]
          else node .flow entry
        match item.rest with
        | none => ⟨[item.value], none⟩
        | some rest =>
          if rest.left < s.left then (flowItems false rest).map (item.value :: ·)
          else ⟨[item.value], none⟩
      else s.stopItems
termination_by 4 * s.left + 3
decreasing_by
  · have := left_next_lt _h (by simp)
    omega
  · omega
  · omega

/--
An entry of a flow collection after its question mark. In a sequence a missing key takes the next
token with it.
-/
def flowPair (inSequence : Bool) (s : Parser) : Reading (Node × Node) :=
  let close : Token.Kind := if inSequence then .flowSequenceEnd else .flowMappingEnd
  let key : Reading Node :=
    if !endsFlowKey close s.kind then node .flow s
    else if inSequence then ⟨.empty s.afterIndicator, some s.next⟩
    else ⟨.empty s.mark, some s⟩
  match key.rest with
  | none => ⟨keyAlone key.value s, none⟩
  | some rest =>
    if rest.left ≤ s.left then (flowValue close rest).map (key.value, ·)
    else ⟨keyAlone key.value s, none⟩
termination_by 4 * s.left + 3
decreasing_by all_goals omega

/-- The value of an entry in a flow collection; it may be missing with its colon. -/
def flowValue (close : Token.Kind) (s : Parser) : Reading Node :=
  match _h : s.kind with
  | .value =>
    if endsFlowValue close s.next.kind then ⟨.empty s.next.mark, some s.next⟩
    else node .flow s.next
  | .unreadable => s.stop
  | _ => ⟨.empty s.mark, some s⟩
termination_by 4 * s.left
decreasing_by
  have := left_next_lt _h (by simp)
  omega

/-- The entries of a flow mapping, up to its end. What stands without a colon is a key. -/
def flowPairs (first : Bool) (s : Parser) : Reading (List (Node × Node)) :=
  if s.kind = .flowMappingEnd then ⟨[], some s.next⟩
  else
    let entry : Option Parser :=
      if first then some s else if s.kind = .flowEntry then some s.next else none
    match entry with
    | none => s.stopEntries
    | some entry =>
      if entry.kind = .flowMappingEnd then ⟨[], some entry.next⟩
      else if entry.left ≤ s.left then
        let pair : Reading (Node × Node) :=
          if _h : entry.kind = .key then flowPair false entry.next
          else
            let key := node .flow entry
            match key.rest with
            | none => ⟨keyAlone key.value entry, none⟩
            | some rest =>
              if rest.kind = .unreadable then ⟨keyAlone key.value rest, none⟩
              else ⟨(key.value, .empty rest.mark), some rest⟩
        match pair.rest with
        | none => ⟨[pair.value], none⟩
        | some rest =>
          if rest.left < s.left then (flowPairs false rest).map (pair.value :: ·)
          else ⟨[pair.value], none⟩
      else s.stopEntries
termination_by 4 * s.left + 3
decreasing_by
  · have := left_next_lt _h (by simp)
    omega
  · omega
  · omega

end

/-- The tag handles that every document knows. -/
def defaultHandles : List (String × String) := [("!", "!"), ("!!", "tag:yaml.org,2002:")]

/-- Takes the directives before a document. None may be repeated; the versions are 1.1 and 1.2. -/
def directives? (versioned : Bool) (s : Parser) : Option Parser :=
  match _h : s.kind with
  | .versionDirective major minor =>
    if versioned || major ≠ 1 || (minor ≠ 1 && minor ≠ 2) then none
    else directives? true s.next
  | .tagDirective handle expansion =>
    if (s.handles.lookup handle).isSome then none
    else directives? versioned { s.next with handles := s.handles ++ [(handle, expansion)] }
  | _ => some { s with handles := s.handles ++ defaultHandles }
termination_by s.left
decreasing_by all_goals exact left_next_lt _h (by simp)

/-- Whether a document starts here that has directives or a start marker. -/
def startsDocument : Token.Kind → Bool
  | .versionDirective _ _ | .tagDirective _ _ | .documentStart => true
  | _ => false

/-- The document after its directives and its start marker. -/
def explicitDocument (s : Parser) : Reading Node :=
  match s.directives? false with
  | none => s.stop
  | some s =>
    if s.kind ≠ .documentStart then s.stop
    else
      let s := s.next
      if startsDocument s.kind || s.kind = .documentEnd || s.kind = .streamEnd then
        ⟨.empty s.mark, some s⟩
      else s.node .block

def document (s : Parser) : Reading Node :=
  if startsDocument s.kind then s.explicitDocument
  else if s.kind = .streamEnd then ⟨.empty s.mark, some s⟩
  else node .block { s with handles := defaultHandles }

/-- Where the tokens after a document are something else than the end of the text. -/
def excess? (s : Parser) : Option Mark :=
  match s.tokens.dropWhile (·.kind = .documentEnd) with
  | ⟨.streamEnd, _⟩ :: _ => none
  | ⟨_, mark⟩ :: _ => some mark
  | [] => some s.mark

end Parser

/-- The first document of a text, as far as it can be read. -/
structure Document where
  root : Node
  /-- Where the text goes on after its first document. -/
  excess : Option Mark

namespace Document

def ofText (text : List Char) : Document :=
  let reading := (Parser.ofTokens (Token.ofText text)).document
  ⟨reading.value, reading.rest.bind Parser.excess?⟩

/-- The place where a text stops being a single YAML document. -/
def stop? (d : Document) : Option Mark := d.root.stop? <|> d.excess

end Document
end Strapdown.Yaml
