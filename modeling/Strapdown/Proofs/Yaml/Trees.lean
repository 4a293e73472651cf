import Strapdown.Proofs.Yaml.Blocks
import Strapdown.Yaml.Node.Parser

/-! The tree that the tokens of a written value are read as. -/
namespace Strapdown.Yaml

variable {s : Parser} {k : Token.Kind} {ks : List Token.Kind} {place : Parser.Place}

mutual

/-- A tree of plain scalars that has the form of a value. -/
inductive Shows : Block → Node → Prop
  | scalar (mark : Mark) (text : String) :
      Shows (.scalar text) (.scalar mark none ⟨text, .plain, none⟩)
  | sequence {items : List Block} {nodes : List Node} (mark : Mark) (h : ShowsItems items nodes) :
      Shows (.sequence items) (.sequence mark none nodes)
  | mapping {entries : List (String × Block)} {pairs : List (Node × Node)} (mark : Mark)
      (h : ShowsEntries entries pairs) : Shows (.mapping entries) (.mapping mark none pairs)

inductive ShowsItems : List Block → List Node → Prop
  | nil : ShowsItems [] []
  | cons {item : Block} {items : List Block} {node : Node} {nodes : List Node}
      (h : Shows item node) (hs : ShowsItems items nodes) :
      ShowsItems (item :: items) (node :: nodes)

inductive ShowsEntries : List (String × Block) → List (Node × Node) → Prop
  | nil : ShowsEntries [] []
  | cons {key : String} {value : Block} {entries : List (String × Block)} {node : Node}
      {pairs : List (Node × Node)} (mark : Mark) (h : Shows value node)
      (hs : ShowsEntries entries pairs) : ShowsEntries ((key, value) :: entries)
        ((.scalar mark none ⟨key, .plain, none⟩, node) :: pairs)

end

namespace Parser

/-- The kinds of the tokens that are left. -/
def kinds (s : Parser) : List Token.Kind := s.tokens.map Token.kind

theorem kind_of_kinds (h : s.kinds = k :: ks) : s.kind = k := by
  rw [Parser.kinds, List.map_eq_cons_iff] at h
  obtain ⟨token, tokens, htokens, rfl, -⟩ := h
  rw [Parser.kind, htokens]

theorem kinds_next (h : s.kinds = k :: ks) : s.next.kinds = ks := by
  rw [Parser.kinds] at h
  rw [Parser.kinds, next, List.map_drop, h]
  rfl

theorem left_of_kinds (h : s.kinds = ks) : s.left = ks.length := by
  rw [s.left_eq, ← h, Parser.kinds, List.length_map]

/-- A token that a written value starts with. -/
def startsValue : Token.Kind → Bool
  | .scalar _ _ | .flowSequenceStart | .flowMappingStart | .blockSequenceStart
  | .blockMappingStart | .blockEntry => true
  | _ => false

/-- A node without an anchor and a tag is its content. -/
theorem node_eq (h : startsValue s.kind = true) :
    s.node place = s.content place s.mark none none false := by
  have hanchor : s.anchor? = (none, s) := by
    rw [anchor?]
    split
    · next hk =>
      rw [hk] at h
      cases h
    · rfl
  have htag : s.tag? = (none, s) := by
    rw [tag?]
    split
    · next hk =>
      rw [hk] at h
      cases h
    · rfl
  have hproperties : s.properties = (⟨none, none⟩, s) := by
    rw [properties, hanchor]
    simp [htag]
  rw [node]
  split
  · next hk =>
    rw [hk] at h
    cases h
  · simp [hproperties, tagName?]

/-! What a node is read as, by the token that it starts with. -/

theorem node_scalar {text : String} (h : s.kind = .scalar .plain text) :
    s.node place = ⟨.scalar s.mark none ⟨text, .plain, none⟩, some s.next⟩ := by
  rw [node_eq (by rw [h]; rfl), content]
  split <;> simp_all [scalarTag]

theorem node_flowSequence (h : s.kind = .flowSequenceStart) :
    s.node place = (flowItems true s.next).map (.sequence s.mark none) := by
  rw [node_eq (by rw [h]; rfl), content]
  split <;> simp_all

theorem node_flowMapping (h : s.kind = .flowMappingStart) :
    s.node place = (flowPairs true s.next).map (.mapping s.mark none) := by
  rw [node_eq (by rw [h]; rfl), content]
  split <;> simp_all

theorem node_blockSequence (h : s.kind = .blockSequenceStart) (hplace : place ≠ .flow) :
    s.node place = (blockItems false s.next).map (.sequence s.mark none) := by
  rw [node_eq (by rw [h]; rfl), content]
  split <;> simp_all

theorem node_blockMapping (h : s.kind = .blockMappingStart) (hplace : place ≠ .flow) :
    s.node place = (blockPairs s.next).map (.mapping s.mark none) := by
  rw [node_eq (by rw [h]; rfl), content]
  split <;> simp_all

theorem node_blockEntry (h : s.kind = .blockEntry) :
    s.node .blockPair = (blockItems true s).map (.sequence s.mark none) := by
  rw [node_eq (by rw [h]; rfl), content]
  split <;> simp_all

end Parser

/-- A reading is the tree of a value, with some tokens left after it. -/
def Reads (b : Block) (ks : List Token.Kind) (r : Parser.Reading Node) : Prop :=
  ∃ node rest, r = ⟨node, some rest⟩ ∧ Shows b node ∧ rest.kinds = ks

def ReadsItems (items : List Block) (ks : List Token.Kind) (r : Parser.Reading (List Node)) : Prop :=
  ∃ nodes rest, r = ⟨nodes, some rest⟩ ∧ ShowsItems items nodes ∧ rest.kinds = ks

def ReadsEntries (entries : List (String × Block)) (ks : List Token.Kind)
    (r : Parser.Reading (List (Node × Node))) : Prop :=
  ∃ pairs rest, r = ⟨pairs, some rest⟩ ∧ ShowsEntries entries pairs ∧ rest.kinds = ks

/-- What ends a sequence, and what is left after it. -/
inductive EndsItems : Bool → List Token.Kind → List Token.Kind → Prop
  | block (ks : List Token.Kind) : EndsItems false (.blockEnd :: ks) ks
  | pair (k : Token.Kind) (ks : List Token.Kind) (h : Parser.endsPair k = true) :
      EndsItems true (k :: ks) (k :: ks)

namespace Block

def NodeRead (b : Block) : Prop := ∀ {place : Parser.Place} {s : Parser} {ks : List Token.Kind},
  place ≠ .flow → s.kinds = b.kinds ++ ks → Reads b ks (s.node place)

def ItemsRead (items : List Block) : Prop :=
  ∀ {indentless : Bool} {s : Parser} {more ks : List Token.Kind},
    s.kinds = itemKinds items ++ more → EndsItems indentless more ks →
      ReadsItems items ks (s.blockItems indentless)

def EntriesRead (entries : List (String × Block)) : Prop :=
  ∀ {s : Parser} {ks : List Token.Kind}, s.kinds = entryKinds entries ++ .blockEnd :: ks →
    ReadsEntries entries ks s.blockPairs

def ValueRead (value : Block) : Prop :=
  ∀ {s : Parser} {k : Token.Kind} {ks : List Token.Kind}, s.kinds = value.valueKinds ++ k :: ks →
    Parser.endsPair k = true → Reads value (k :: ks) (s.node .blockPair)

theorem exists_kinds (b : Block) : ∃ k ks, b.kinds = k :: ks ∧
    Parser.startsValue k = true ∧ k ≠ .blockEntry := by
  cases b with
  | scalar text => exact ⟨_, _, by rw [kinds], rfl, by simp⟩
  | sequence items =>
    cases items with
    | nil => exact ⟨_, _, by rw [kinds], rfl, by decide⟩
    | cons item items => exact ⟨_, _, by rw [kinds, List.cons_append], rfl, by decide⟩
  | mapping entries =>
    rcases entries with _ | ⟨⟨key, value⟩, entries⟩
    · exact ⟨_, _, by rw [kinds], rfl, by decide⟩
    · exact ⟨_, _, by rw [kinds, List.cons_append], rfl, by decide⟩

theorem exists_valueKinds (value : Block) :
    ∃ k ks, value.valueKinds = k :: ks ∧ Parser.startsValue k = true := by
  cases value with
  | scalar text => exact ⟨_, _, by rw [valueKinds], rfl⟩
  | sequence items => cases items <;> exact ⟨_, _, by rw [valueKinds], rfl⟩
  | mapping entries =>
    rcases entries with _ | ⟨⟨key, value⟩, entries⟩
    · exact ⟨_, _, by rw [valueKinds], rfl⟩
    · exact ⟨_, _, by rw [valueKinds, List.cons_append], rfl⟩

theorem not_endsEntry {k : Token.Kind} (indentless : Bool) (h : Parser.startsValue k = true)
    (hne : k ≠ .blockEntry) : Parser.endsEntry indentless k = false := by
  cases k <;> first | rfl | exact absurd rfl hne | cases h

theorem not_endsPair {k : Token.Kind} (h : Parser.startsValue k = true) :
    Parser.endsPair k = false := by
  cases k <;> first | rfl | cases h

/-- Items are read one by one. -/
theorem readsItems_cons {s : Parser} {indentless : Bool} {item : Block} {items : List Block}
    {more ks : List Token.Kind} (hitem : NodeRead item) (hitems : ItemsRead items)
    (h : s.kinds = itemKinds (item :: items) ++ more) (hmore : EndsItems indentless more ks) :
    ReadsItems (item :: items) ks (s.blockItems indentless) := by
  rw [itemKinds, List.cons_append, List.append_assoc] at h
  have hkind := Parser.kind_of_kinds h
  have hnext := Parser.kinds_next h
  have hplace : Parser.Place.block ≠ .flow := by decide
  obtain ⟨node, rest, hnode, hshows, hrest⟩ := hitem hplace hnext
  obtain ⟨nodes, last, hnodes, hitemsShown, hlast⟩ := hitems hrest hmore
  have hstart : Parser.endsEntry indentless s.next.kind = false := by
    obtain ⟨k, ks', hk, hvalue, hne⟩ := exists_kinds item
    rw [hk, List.cons_append] at hnext
    rw [Parser.kind_of_kinds hnext, not_endsEntry indentless hvalue hne]
  have hleft : rest.left < s.left := by
    rw [Parser.left_of_kinds h, Parser.left_of_kinds hrest]
    simp only [List.length_cons, List.length_append]
    omega
  refine ⟨node :: nodes, last, ?_, .cons hshows hitemsShown, hlast⟩
  rw [Parser.blockItems]
  split
  · simp [hstart, hnode, hleft, hnodes, Parser.Reading.map]
  · next hk => exact absurd hkind hk

theorem readsItems_nil {s : Parser} {indentless : Bool} {more ks : List Token.Kind}
    (h : s.kinds = more) (hmore : EndsItems indentless more ks) :
    ReadsItems [] ks (s.blockItems indentless) := by
  cases hmore with
  | block ks =>
    have hkind := Parser.kind_of_kinds h
    refine ⟨[], s.next, ?_, .nil, Parser.kinds_next h⟩
    rw [Parser.blockItems]
    split <;> simp_all
  | pair k ks hk =>
    have hkind := Parser.kind_of_kinds h
    refine ⟨[], s, ?_, .nil, h⟩
    rw [Parser.blockItems]
    split
    · next hentry =>
      rw [← hkind, hentry] at hk
      cases hk
    · next hentry =>
      have hreadable : s.kind ≠ .unreadable := by
        intro hstop
        rw [← hkind, hstop] at hk
        cases hk
      simp [hreadable]

theorem exists_entryKinds (entries : List (String × Block)) (ks : List Token.Kind) :
    ∃ k ks', entryKinds entries ++ .blockEnd :: ks = k :: ks' ∧ Parser.endsPair k = true := by
  rcases entries with _ | ⟨⟨key, value⟩, entries⟩
  · exact ⟨_, _, rfl, rfl⟩
  · exact ⟨_, _, by rw [entryKinds, List.cons_append], rfl⟩

/-- The value of an entry, after its key. -/
theorem reads_blockValue {s : Parser} {k : Token.Kind} {value : Block} {ks : List Token.Kind}
    (hvalue : ValueRead value) (h : s.kinds = .value :: (value.valueKinds ++ k :: ks))
    (hk : Parser.endsPair k = true) : Reads value (k :: ks) s.blockValue := by
  have hkind := Parser.kind_of_kinds h
  have hnext := Parser.kinds_next h
  have hstart : Parser.endsPair s.next.kind = false := by
    obtain ⟨k', ks', hk', hfirst⟩ := exists_valueKinds value
    rw [hk', List.cons_append] at hnext
    rw [Parser.kind_of_kinds hnext, not_endsPair hfirst]
  have hread := hvalue hnext hk
  rw [Parser.blockValue]
  split
  · rwa [if_neg (by rw [hstart]; decide)]
  · next hstop =>
    rw [hkind] at hstop
    cases hstop
  · next hother _ => exact absurd hkind hother

/-- Entries are read one by one. -/
theorem readsEntries_cons {s : Parser} {key : String} {value : Block}
    {entries : List (String × Block)} {ks : List Token.Kind} (hvalue : ValueRead value)
    (hentries : EntriesRead entries)
    (h : s.kinds = entryKinds ((key, value) :: entries) ++ .blockEnd :: ks) :
    ReadsEntries ((key, value) :: entries) ks s.blockPairs := by
  rw [entryKinds, List.cons_append, List.cons_append, List.cons_append, List.append_assoc] at h
  obtain ⟨k, more, hmore, hk⟩ := exists_entryKinds entries ks
  have hkind := Parser.kind_of_kinds h
  have hscalar := Parser.kinds_next h
  have hcolon := Parser.kinds_next hscalar
  have hstart := Parser.kind_of_kinds hscalar
  rw [hmore] at hcolon
  obtain ⟨node, rest, hnode, hshows, hrest⟩ := reads_blockValue hvalue hcolon hk
  have hleft : s.next.next.left < s.left ∧ rest.left ≤ s.next.next.left := by
    rw [Parser.left_of_kinds h, Parser.left_of_kinds hcolon, Parser.left_of_kinds hrest, hmore]
    simp
    omega
  rw [← hmore] at hrest
  obtain ⟨pairs, last, hpairs, hentriesShown, hlast⟩ := hentries hrest
  refine ⟨(.scalar s.next.mark none ⟨key, .plain, none⟩, node) :: pairs, last, ?_,
    .cons _ hshows hentriesShown, hlast⟩
  rw [Parser.blockPairs]
  split
  · next hend =>
    rw [hkind] at hend
    cases hend
  · have hpair : Parser.endsPair s.next.kind = false := by
      rw [hstart]
      rfl
    simp [hpair, Parser.node_scalar hstart, hleft.1, hleft.2, hnode, hpairs, Parser.Reading.map]
  · next _ hother => exact absurd hkind hother

theorem kinds_sequence (item : Block) (items : List Block) (ks : List Token.Kind) :
    kinds (sequence (item :: items)) ++ ks =
      .blockSequenceStart :: (itemKinds (item :: items) ++ .blockEnd :: ks) := by
  rw [kinds, itemKinds]
  simp

theorem kinds_mapping (key : String) (value : Block) (entries : List (String × Block))
    (ks : List Token.Kind) : kinds (mapping ((key, value) :: entries)) ++ ks =
      .blockMappingStart :: (entryKinds ((key, value) :: entries) ++ .blockEnd :: ks) := by
  rw [kinds, entryKinds]
  simp

theorem valueKinds_sequence (item : Block) (items : List Block) :
    valueKinds (sequence (item :: items)) = itemKinds (item :: items) := by
  rw [valueKinds, itemKinds]

theorem valueKinds_mapping (key : String) (value : Block) (entries : List (String × Block)) :
    valueKinds (mapping ((key, value) :: entries)) = kinds (mapping ((key, value) :: entries)) := by
  rw [valueKinds, kinds]

/-! An empty collection is written in flow style. -/

theorem reads_brackets {s : Parser} {ks : List Token.Kind}
    (h : s.kinds = .flowSequenceStart :: .flowSequenceEnd :: ks) (place : Parser.Place) :
    Reads (sequence []) ks (s.node place) := by
  have hnext := Parser.kinds_next h
  refine ⟨_, s.next.next, ?_, .sequence s.mark .nil, Parser.kinds_next hnext⟩
  rw [Parser.node_flowSequence (Parser.kind_of_kinds h), Parser.flowItems,
    if_pos (Parser.kind_of_kinds hnext)]
  rfl

theorem reads_braces {s : Parser} {ks : List Token.Kind}
    (h : s.kinds = .flowMappingStart :: .flowMappingEnd :: ks) (place : Parser.Place) :
    Reads (mapping []) ks (s.node place) := by
  have hnext := Parser.kinds_next h
  refine ⟨_, s.next.next, ?_, .mapping s.mark .nil, Parser.kinds_next hnext⟩
  rw [Parser.node_flowMapping (Parser.kind_of_kinds h), Parser.flowPairs,
    if_pos (Parser.kind_of_kinds hnext)]
  rfl

theorem reads_scalar {s : Parser} {text : String} {ks : List Token.Kind}
    (h : s.kinds = .scalar .plain text :: ks) (place : Parser.Place) :
    Reads (scalar text) ks (s.node place) :=
  ⟨_, s.next, Parser.node_scalar (Parser.kind_of_kinds h), .scalar s.mark text,
    Parser.kinds_next h⟩

theorem reads_mapping {s : Parser} {key : String} {value : Block}
    {entries : List (String × Block)} {ks : List Token.Kind} {place : Parser.Place}
    (hvalue : ValueRead value) (hentries : EntriesRead entries) (hplace : place ≠ .flow)
    (h : s.kinds = .blockMappingStart :: (entryKinds ((key, value) :: entries) ++ .blockEnd :: ks)) :
    Reads (mapping ((key, value) :: entries)) ks (s.node place) := by
  obtain ⟨pairs, rest, hpairs, hshows, hrest⟩ :=
    readsEntries_cons hvalue hentries (Parser.kinds_next h)
  refine ⟨_, rest, ?_, .mapping s.mark hshows, hrest⟩
  rw [Parser.node_blockMapping (Parser.kind_of_kinds h) hplace, hpairs]
  rfl

theorem reads_sequence {s : Parser} {item : Block} {items : List Block} {ks : List Token.Kind}
    {place : Parser.Place} (hitem : NodeRead item) (hitems : ItemsRead items) (hplace : place ≠ .flow)
    (h : s.kinds = .blockSequenceStart :: (itemKinds (item :: items) ++ .blockEnd :: ks)) :
    Reads (sequence (item :: items)) ks (s.node place) := by
  obtain ⟨nodes, rest, hnodes, hshows, hrest⟩ :=
    readsItems_cons hitem hitems (Parser.kinds_next h) (.block ks)
  refine ⟨_, rest, ?_, .sequence s.mark hshows, hrest⟩
  rw [Parser.node_blockSequence (Parser.kind_of_kinds h) hplace, hnodes]
  rfl

/-- A sequence after a key, whose items are not indented further than the key. -/
theorem reads_indentless {s : Parser} {k : Token.Kind} {item : Block} {items : List Block}
    {ks : List Token.Kind} (hitem : NodeRead item) (hitems : ItemsRead items)
    (h : s.kinds = itemKinds (item :: items) ++ k :: ks) (hk : Parser.endsPair k = true) :
    Reads (sequence (item :: items)) (k :: ks) (s.node .blockPair) := by
  obtain ⟨nodes, rest, hnodes, hshows, hrest⟩ := readsItems_cons hitem hitems h (.pair k ks hk)
  refine ⟨_, rest, ?_, .sequence s.mark hshows, hrest⟩
  rw [itemKinds, List.cons_append] at h
  rw [Parser.node_blockEntry (Parser.kind_of_kinds h), hnodes]
  rfl

theorem readsEntries_nil {s : Parser} {ks : List Token.Kind} (h : s.kinds = .blockEnd :: ks) :
    ReadsEntries [] ks s.blockPairs := by
  have hkind := Parser.kind_of_kinds h
  refine ⟨[], s.next, ?_, .nil, Parser.kinds_next h⟩
  rw [Parser.blockPairs]
  split <;> simp_all

mutual

theorem nodeRead : ∀ b : Block, NodeRead b
  | scalar text => by
    intro hplace h
    rw [kinds] at h
    exact reads_scalar h _
  | sequence [] => by
    intro hplace h
    rw [kinds] at h
    exact reads_brackets h _
  | sequence (item :: items) => by
    intro hplace h
    rw [kinds_sequence] at h
    exact reads_sequence (nodeRead item) (itemsRead items) hplace h
  | mapping [] => by
    intro hplace h
    rw [kinds] at h
    exact reads_braces h _
  | mapping ((key, value) :: entries) => by
    intro hplace h
    rw [kinds_mapping] at h
    exact reads_mapping (valueRead value) (entriesRead entries) hplace h

theorem itemsRead : ∀ items : List Block, ItemsRead items
  | [] => readsItems_nil
  | item :: items => readsItems_cons (nodeRead item) (itemsRead items)

theorem entriesRead : ∀ entries : List (String × Block), EntriesRead entries
  | [] => readsEntries_nil
  | (_, value) :: entries => readsEntries_cons (valueRead value) (entriesRead entries)

theorem valueRead : ∀ value : Block, ValueRead value
  | scalar text => by
    intro h hk
    rw [valueKinds] at h
    exact reads_scalar h _
  | sequence [] => by
    intro h hk
    rw [valueKinds] at h
    exact reads_brackets h _
  | sequence (item :: items) => by
    intro h hk
    rw [valueKinds_sequence] at h
    exact reads_indentless (nodeRead item) (itemsRead items) h hk
  | mapping [] => by
    intro h hk
    rw [valueKinds] at h
    exact reads_braces h _
  | mapping ((key, value) :: entries) => by
    intro h hk
    rw [valueKinds_mapping, kinds_mapping] at h
    exact reads_mapping (valueRead value) (entriesRead entries) (by decide) h

end

/-- A written value is read as a tree of its form, and nothing follows it. -/
theorem shows_ofText (b : Block) (h : b.Simple) :
    Shows b (Document.ofText b.text.toList).root ∧ (Document.ofText b.text.toList).excess = none := by
  let tokens := Token.ofText b.text.toList
  let start : Parser := { Parser.ofTokens tokens with handles := Parser.defaultHandles }
  have hkinds : start.kinds = b.kinds ++ [.streamEnd] := kinds_ofText b h
  obtain ⟨k, ks, hk, hvalue, -⟩ := exists_kinds b
  have hkind : (Parser.ofTokens tokens).kind = k := by
    rw [hk, List.cons_append] at hkinds
    exact Parser.kind_of_kinds hkinds
  have hdocument : (Parser.ofTokens tokens).document = start.node .block := by
    have hstarts : Parser.startsDocument k = false := by
      cases k <;> first | rfl | cases hvalue
    have hend : k ≠ .streamEnd := by
      rintro rfl
      cases hvalue
    rw [Parser.document, hkind, hstarts, if_neg (by decide), if_neg hend]
  have hplace : Parser.Place.block ≠ .flow := by decide
  obtain ⟨node, rest, hnode, hshows, hrest⟩ := nodeRead b hplace hkinds
  rw [Document.ofText, hdocument, hnode]
  refine ⟨hshows, ?_⟩
  have hexcess : rest.excess? = none := by
    rw [Parser.kinds, List.map_eq_cons_iff] at hrest
    obtain ⟨token, tokens, htokens, htoken, -⟩ := hrest
    obtain ⟨kind, mark⟩ := token
    obtain rfl : kind = .streamEnd := htoken
    rw [Parser.excess?, htokens]
    rfl
  exact hexcess

end Block
end Strapdown.Yaml
