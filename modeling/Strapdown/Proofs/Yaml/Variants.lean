import Mathlib.Data.List.Forall2
import Strapdown.Proofs.Yaml.Decoding

/-!
Documents that give a value in another way than it is written: with entries left out, repeated, in
another order, or beside entries that nobody asks for.
-/
namespace Strapdown.Yaml

variable {b : Block} {s : Spot} {fault : Fault} {name : String} {entries : List (String × Block)}

namespace Node

/-- The entries of a node that can stand for a mapping; an empty value has none. -/
def pairs? : Node → Option (List (Node × Node))
  | mapping _ _ pairs => some pairs
  | scalar _ _ value => if value.isEmpty then some [] else none
  | _ => none

/-- The name that a key gives, which may be written somewhere else. -/
def name? (root key : Node) : Option String :=
  match root.target key with
  | scalar _ _ value => some value.text
  | _ => none

/-- The step into the value under a key. -/
def step (key : Node) (name : String) : Step :=
  match key with
  | reference _ _ => .unnamed
  | _ => .key name

/-- A scalar as it is written, and a mapping with such keys, at no place in particular. -/
def plain (text : String) : Node := scalar .start none ⟨text, .plain, none⟩

def ofPairs (pairs : List (String × Node)) : Node :=
  mapping .start none (pairs.map fun pair => (plain pair.1, pair.2))

end Node

namespace Spot

/-- The value of the first of some entries with a name. -/
def valueIn (s : Spot) (pairs : List (Node × Node)) (name : String) : Option Spot :=
  pairs.findSome? fun pair =>
    if s.root.name? pair.1 = some name then some (s.child (pair.1.step name) pair.2) else none

/-- The value of the first entry with a name. -/
def value? (s : Spot) (name : String) : Option Spot := s.valueIn (s.node.pairs?.getD []) name

def has (s : Spot) (name : String) : Bool := (s.value? name).isSome

theorem value?_eq {pairs : List (Node × Node)} (h : s.node.pairs? = some pairs) :
    s.value? = s.valueIn pairs := by
  funext name
  rw [value?, h, Option.getD_some]

theorem isSome_valueIn_iff {pairs : List (Node × Node)} : (s.valueIn pairs name).isSome ↔
    ∃ pair ∈ pairs, s.root.name? pair.1 = some name := by
  rw [valueIn, List.isSome_findSome?]
  simp

/-- The first entry with a name gives its value. -/
theorem value?_eq_some_iff {pairs : List (Node × Node)} {v : Spot}
    (h : s.node.pairs? = some pairs) :
    s.value? name = some v ↔ ∃ pre pair post, pairs = pre ++ pair :: post ∧
      s.valueIn pre name = none ∧ s.root.name? pair.1 = some name ∧
      s.child (pair.1.step name) pair.2 = v := by
  rw [value?_eq h, valueIn, List.findSome?_eq_some_iff]
  simp only [valueIn, List.findSome?_eq_none_iff, Option.ite_none_right_eq_some, Option.some.injEq]
  constructor
  · rintro ⟨pre, pair, post, hpairs, ⟨hname, hvalue⟩, hpre⟩
    exact ⟨pre, pair, post, hpairs, hpre, hname, hvalue⟩
  · rintro ⟨pre, pair, post, hpairs, hpre, hname, hvalue⟩
    exact ⟨pre, pair, post, hpairs, ⟨hname, hvalue⟩, hpre⟩

end Spot

/-- A value in another way than it is written. An entry under a name of the written value gives a
variant of what is written there, and an entry under any other name gives anything. -/
inductive Varies : Block → Spot → Prop
  | scalar {s : Spot} {mark : Mark} {slot : Option ℕ} {text : String}
      (h : s.node = .scalar mark slot ⟨text, .plain, none⟩) : Varies (.scalar text) s
  | sequence {s : Spot} {mark : Mark} {slot : Option ℕ} {items : List Block} {nodes : List Node}
      (h : s.node = .sequence mark slot nodes)
      (hitems : List.Forall₂ Varies items (nodes.mapIdx fun i node => s.child (.index i) node)) :
      Varies (.sequence items) s
  | mapping {s : Spot} {entries : List (String × Block)} {pairs : List (Node × Node)}
      (h : s.node.pairs? = some pairs)
      (hkeys : ∀ pair ∈ pairs, ∃ name, s.root.name? pair.1 = some name ∧
        (name ∈ entries.map Prod.fst ∨ pair.2.stop? = none))
      (hvalues : ∀ name block value, (name, block) ∈ entries → s.value? name = some value →
        Varies block value) : Varies (.mapping entries) s

/-- What is wrong with a variant of a value: an entry that is needed is left out, or one that has a
meaning is repeated. Nothing else is. -/
inductive Flaw (needed : List String) : Block → Spot → Fault → Prop
  | missing {s : Spot} {entries : List (String × Block)} {name : String} (hneeded : name ∈ needed)
      (hname : name ∈ entries.map Prod.fst) (hvalue : s.value? name = none) :
      Flaw needed (.mapping entries) s (s.fault (.missingField name))
  | repeated {s : Spot} {entries : List (String × Block)} {name : String}
      {pre post : List (Node × Node)} {key value : Node}
      (h : s.node.pairs? = some (pre ++ (key, value) :: post))
      (hkey : s.root.name? key = some name) (hname : name ∈ entries.map Prod.fst)
      (hpre : ∃ pair ∈ pre, s.root.name? pair.1 = some name) :
      Flaw needed (.mapping entries) s (s.fault (.duplicateField name))
  | value {s value : Spot} {entries : List (String × Block)} {name : String} {block : Block}
      {fault : Fault} (hentry : (name, block) ∈ entries) (hvalue : s.value? name = some value)
      (h : Flaw needed block value fault) : Flaw needed (.mapping entries) s fault
  | item {s item : Spot} {mark : Mark} {slot : Option ℕ} {items : List Block} {nodes : List Node}
      {block : Block} {fault : Fault} (h : s.node = .sequence mark slot nodes)
      (hitem : (block, item) ∈ items.zip (nodes.mapIdx fun i node => s.child (.index i) node))
      (hfault : Flaw needed block item fault) : Flaw needed (.sequence items) s fault

/-! Mappings that are written out. -/

section OfPairs

variable {root : Node} {path : List Step} {pairs : List (String × Node)}

theorem name?_plain (root : Node) (name : String) : root.name? (.plain name) = some name := rfl

theorem exists_of_value?_ofPairs {v : Spot}
    (h : Spot.value? ⟨root, path, .ofPairs pairs⟩ name = some v) :
    ∃ pair ∈ pairs, pair.1 = name ∧
      Spot.child ⟨root, path, .ofPairs pairs⟩ (.key pair.1) pair.2 = v := by
  obtain ⟨_, hmem, hvalue⟩ := List.exists_of_findSome?_eq_some h
  obtain ⟨pair, hpair, rfl⟩ := List.mem_map.mp hmem
  rw [Option.ite_none_right_eq_some, name?_plain, Option.some.injEq] at hvalue
  obtain ⟨rfl, hvalue⟩ := hvalue
  exact ⟨pair, hpair, rfl, Option.some.inj hvalue⟩

theorem Varies.ofPairs
    (hkeys : ∀ pair ∈ pairs, pair.1 ∈ entries.map Prod.fst ∨ pair.2.stop? = none)
    (hvalues : ∀ pair ∈ pairs, ∀ block, (pair.1, block) ∈ entries →
      Varies block (Spot.child ⟨root, path, .ofPairs pairs⟩ (.key pair.1) pair.2)) :
    Varies (.mapping entries) ⟨root, path, .ofPairs pairs⟩ := by
  refine .mapping rfl ?_ ?_
  · rw [List.forall_mem_map]
    exact fun pair hpair => ⟨pair.1, rfl, hkeys pair hpair⟩
  · intro name block value hentry hvalue
    obtain ⟨pair, hpair, rfl, rfl⟩ := exists_of_value?_ofPairs hvalue
    exact hvalues pair hpair block hentry

/-- With keys of their own and nothing left out, entries have only the flaws of their values. -/
theorem not_flaw_ofPairs {needed : List String}
    (hneeded : ∀ name ∈ needed, name ∈ entries.map Prod.fst → name ∈ pairs.map Prod.fst)
    (hnames : (pairs.map Prod.fst).Nodup)
    (hvalues : ∀ pair ∈ pairs, ∀ block, (pair.1, block) ∈ entries →
      ¬ Flaw needed block (Spot.child ⟨root, path, .ofPairs pairs⟩ (.key pair.1) pair.2) fault) :
    ¬ Flaw needed (.mapping entries) ⟨root, path, .ofPairs pairs⟩ fault := by
  rintro (⟨hmissing, hname, hvalue⟩ | ⟨h, hkey, -, hpre⟩ | ⟨hentry, hvalue, hfault⟩ | _)
  · obtain ⟨pair, hpair, rfl⟩ := List.mem_map.mp (hneeded _ hmissing hname)
    have hnone := List.findSome?_eq_none_iff.mp hvalue (.plain pair.1, pair.2)
      (List.mem_map_of_mem hpair)
    rw [if_pos (name?_plain _ _)] at hnone
    cases hnone
  · obtain ⟨before, rest, rfl, rfl, hrest⟩ := List.map_eq_append_iff.mp (Option.some.inj h)
    obtain ⟨pair, after, rfl, hpair, -⟩ := List.map_eq_cons_iff.mp hrest
    obtain ⟨rfl, -⟩ := Prod.mk.inj hpair
    obtain ⟨_, hmem, hsame⟩ := hpre
    obtain ⟨earlier, hearlier, rfl⟩ := List.mem_map.mp hmem
    rw [name?_plain] at hkey hsame
    rw [List.map_append, List.nodup_append] at hnames
    exact hnames.2.2 _ (List.mem_map_of_mem hearlier) _ List.mem_cons_self
      (Option.some.inj (hsame.trans hkey.symm))
  · obtain ⟨pair, hpair, rfl, rfl⟩ := exists_of_value?_ofPairs hvalue
    exact hvalues pair hpair _ hentry hfault

end OfPairs

/-- A flaw is a field that is missing or one that is given twice. -/
theorem Flaw.problem_cases {needed : List String} (h : Flaw needed b s fault) :
    (∃ name ∈ needed, fault.problem = .missingField name) ∨
      ∃ name, fault.problem = .duplicateField name := by
  induction h with
  | missing hneeded => exact Or.inl ⟨_, hneeded, rfl⟩
  | repeated => exact Or.inr ⟨_, rfl⟩
  | value _ _ _ ih => exact ih
  | item _ _ _ ih => exact ih

theorem not_flaw_scalar {needed : List String} {text : String} :
    ¬ Flaw needed (.scalar text) s fault := fun h => nomatch h

/-! What is written is a variant of itself. -/

/-- No mapping has two entries with one name. -/
inductive Block.Distinct : Block → Prop
  | scalar (text : String) : Distinct (.scalar text)
  | sequence {items : List Block} (hitems : ∀ item ∈ items, Distinct item) :
      Distinct (.sequence items)
  | mapping {entries : List (String × Block)} (hnames : (entries.map Prod.fst).Nodup)
      (hvalues : ∀ entry ∈ entries, Distinct entry.2) : Distinct (.mapping entries)

theorem ShowsItems.forall₂ {r : Block → Spot → Prop} {items : List Block} {spots : List Spot}
    (h : ShowsItems items (spots.map Spot.node))
    (hr : ∀ item ∈ items, ∀ s : Spot, Shows item s.node → r item s) :
    List.Forall₂ r items spots := by
  induction items generalizing spots with
  | nil =>
    cases spots with
    | nil => exact .nil
    | cons s spots => cases h
  | cons item items ih =>
    cases spots with
    | nil => cases h
    | cons s spots =>
      cases h with
      | cons hs h =>
        exact .cons (hr item List.mem_cons_self s hs)
          (ih h fun other hother => hr other (List.mem_cons_of_mem item hother))

/-- Every entry of a written mapping has a key of its own. -/
theorem ShowsEntries.exists_entry {pairs : List (Node × Node)} {pair : Node × Node}
    (h : ShowsEntries entries pairs) (hpair : pair ∈ pairs) : ∃ entry ∈ entries,
      (∃ mark, pair.1 = .scalar mark none ⟨entry.1, .plain, none⟩) ∧ Shows entry.2 pair.2 := by
  induction entries generalizing pairs with
  | nil =>
    cases h
    cases hpair
  | cons entry entries ih =>
    obtain _ | ⟨mark, hvalue, hmore⟩ := h
    obtain rfl | hpair := List.mem_cons.mp hpair
    · exact ⟨_, List.mem_cons_self, ⟨mark, rfl⟩, hvalue⟩
    · obtain ⟨other, hother, hshows⟩ := ih hmore hpair
      exact ⟨other, List.mem_cons_of_mem _ hother, hshows⟩

theorem Shows.varies (hb : b.Distinct) (h : Shows b s.node) : Varies b s := by
  induction hb generalizing s with
  | scalar text =>
    generalize hnode : s.node = node at h
    cases h
    exact .scalar hnode
  | @sequence items _ ih =>
    obtain ⟨spots, hitems, hspots⟩ := items_eq "" h
    have hall := hspots.forall₂ fun item hitem s hs => ih item hitem hs
    rw [Spot.items] at hitems
    generalize hnode : s.node = node at h hitems
    cases h
    obtain rfl := Except.ok.inj hitems
    exact .sequence hnode hall
  | @mapping entries hnames _ ih =>
    generalize hnode : s.node = node at h
    cases h with
    | @mapping _ pairs mark hentries =>
    have hpairs : s.node.pairs? = some pairs := by rw [hnode, Node.pairs?]
    refine .mapping hpairs ?_ ?_
    · rintro ⟨key, value⟩ hpair
      obtain ⟨entry, hentry, ⟨mark, rfl⟩, -⟩ := hentries.exists_entry hpair
      exact ⟨entry.1, rfl, Or.inl (List.mem_map_of_mem hentry)⟩
    · intro name block value hblock hvalue
      obtain ⟨pre, ⟨key, node⟩, post, rfl, -, hkey, rfl⟩ :=
        (Spot.value?_eq_some_iff hpairs).mp hvalue
      have hpair : (key, node) ∈ pre ++ (key, node) :: post :=
        List.mem_append_right pre List.mem_cons_self
      obtain ⟨entry, hentry, ⟨mark, rfl⟩, hshows⟩ := hentries.exists_entry hpair
      obtain rfl : entry = (name, block) :=
        List.inj_on_of_nodup_map hnames hentry hblock (Option.some.inj hkey)
      refine ih _ hentry ?_
      rw [Spot.child, hshows.target_eq]
      exact hshows

theorem Shows.varies_ofRoot {root : Node} (hb : b.Distinct) (h : Shows b root) :
    Varies b (.ofRoot root) := by
  have hroot : Shows b (Spot.ofRoot root).node := h
  exact hroot.varies hb

end Strapdown.Yaml
