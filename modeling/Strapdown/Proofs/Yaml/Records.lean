import Strapdown.Proofs.Yaml.Variants

/-!
Reading the variants of a value. A reader either finds no flaw in a variant and gives its value, or
it reports one of its flaws.
-/
namespace Strapdown.Yaml

variable {α β σ : Type} {b : Block} {s : Spot} {v : α} {fault : Fault} {name : String}
  {entries : List (String × Block)} {pre post : List (Node × Node)} {key value : Node}

namespace Spot

/-- One more entry gives the value of its name, unless that has one. -/
theorem valueIn_concat (h : s.root.name? key = some name) : s.valueIn (pre ++ [(key, value)]) =
    Function.update (s.valueIn pre) name
      (some ((s.valueIn pre name).getD (s.child (key.step name) value))) := by
  funext other
  rw [valueIn, List.findSome?_append]
  by_cases hother : other = name
  · subst hother
    rw [Function.update_self, List.findSome?_singleton, if_pos h]
    change Option.or (s.valueIn pre other) _ = _
    cases s.valueIn pre other <;> rfl
  · rw [Function.update_of_ne hother, List.findSome?_singleton, if_neg, Option.or_none]
    · rfl
    · rw [h]
      exact fun heq => hother (Option.some.inj heq).symm

theorem entries_eq {pairs : List (Node × Node)} (h : s.node.pairs? = some pairs)
    (expected : String) : s.entries expected = .ok pairs := by
  rw [entries]
  generalize s.node = node at h
  cases node with
  | mapping _ _ _ => exact congrArg Except.ok (Option.some.inj h)
  | scalar _ _ value =>
    rw [Node.pairs?] at h
    by_cases hempty : value.isEmpty = true
    · rw [if_pos hempty] at h
      exact (if_pos hempty).trans (congrArg Except.ok (Option.some.inj h))
    · rw [if_neg hempty] at h
      cases h
  | _ => cases h

theorem keyName_eq (h : s.root.name? key = some name) :
    s.keyName key = .ok (name, key.step name) := by
  rw [Node.name?] at h
  rw [keyName]
  generalize s.root.target key = node at h
  cases node with
  | scalar _ _ value =>
    obtain rfl := Option.some.inj h
    rfl
  | _ => cases h

end Spot

/-- With no flaw the result is a value; otherwise it is one of the flaws. -/
def Answers (flaw : Fault → Prop) (v : α) : Except Fault α → Prop
  | .ok x => x = v ∧ ∀ fault, ¬ flaw fault
  | .error fault => flaw fault

namespace Answers

variable {flaw flaw' : Fault → Prop} {w : β} {result : Except Fault α} {f : α → Except Fault β}

theorem of_ok (h : ∀ fault, ¬ flaw fault) : Answers flaw v (.ok v) := ⟨rfl, h⟩

theorem congr (h : Answers flaw v result) (hiff : ∀ fault, flaw' fault ↔ flaw fault) :
    Answers flaw' v result := by
  rwa [funext fun fault => propext (hiff fault)]

theorem bind (h : Answers flaw v result) (hf : Answers flaw' w (f v)) :
    Answers (fun fault => flaw fault ∨ flaw' fault) w (result >>= f) := by
  cases result with
  | error fault => exact Or.inl h
  | ok x =>
    obtain ⟨rfl, hnone⟩ := h
    change Answers _ w (f x)
    exact hf.congr fun fault => or_iff_right (hnone fault)

theorem bind_ok (h : Answers flaw v result) (hf : f v = .ok w) : Answers flaw w (result >>= f) := by
  cases result with
  | error fault => exact h
  | ok x =>
    obtain ⟨rfl, hnone⟩ := h
    change Answers _ w (f x)
    exact hf ▸ .of_ok hnone

theorem map (h : Answers flaw v result) (f : α → β) : Answers flaw (f v) (result.map f) := by
  cases result with
  | error fault => exact h
  | ok x => exact ⟨congrArg f h.1, h.2⟩

theorem of_exists {ι : Type} {p : ι → Prop} {flaw : ι → Fault → Prop} (hi : ∃ i, p i)
    (h : ∀ i, p i → Answers (flaw i) v result) :
    Answers (fun fault => ∃ i, p i ∧ flaw i fault) v result := by
  obtain ⟨i, hi⟩ := hi
  cases result with
  | error fault => exact ⟨i, hi, h i hi⟩
  | ok x => exact ⟨(h i hi).1, fun fault ⟨i, hi, hflaw⟩ => (h i hi).2 fault hflaw⟩

end Answers

variable {needed : List String}

/-- A decoder reads every variant of a block, as a value that depends on the variant. -/
def Understands (needed : List String) (d : Decoder α) (b : Block) (v : Spot → α) : Prop :=
  ∀ s, Varies b s → Answers (Flaw needed b s) (v s) (d s)

theorem flaw_sequence_iff {items : List Block} {mark : Mark} {slot : Option ℕ} {nodes : List Node}
    (h : s.node = .sequence mark slot nodes) : Flaw needed (.sequence items) s fault ↔
      ∃ pair ∈ items.zip (nodes.mapIdx fun i node => s.child (.index i) node),
        Flaw needed pair.1 pair.2 fault := by
  refine ⟨?_, fun ⟨_, hpair, hfault⟩ => .item h hpair hfault⟩
  rintro (_ | _ | _ | ⟨h', hitem, hfault⟩)
  obtain ⟨rfl, rfl, rfl⟩ := Node.sequence.inj (h'.symm.trans h)
  exact ⟨_, hitem, hfault⟩

namespace Understands

theorem scalar {core : Core} {expected text : String} {parse? : String → Option α}
    (h : parse? text = some v) :
    Understands needed (Decoder.scalar core expected parse?) (.scalar text) fun _ => v := by
  rintro s (⟨hnode⟩ | _ | _)
  rw [Decoder.scalar, hnode]
  simp only [Scalar.reads, h]
  exact .of_ok fun _ => not_flaw_scalar

/-- A number is read as itself, but for one magnitude. -/
theorem float32 (x : Float32) :
    Understands needed Decoder.float32 (Block.float32 x) fun _ => settled x := by
  obtain ⟨y, hy, hx⟩ := number?_write x
  refine scalar ?_
  rw [hy, Option.map_some, hx]

theorem count64 (expected : String) (n : UInt64) :
    Understands needed (Decoder.count64 expected) (Block.count n.toNat) fun _ => n := by
  refine scalar ?_
  rw [String.toList_ofList, natural?_toDigits, Option.bind_some, if_pos n.toNat_lt]
  simp

variable {f : α → Block} {g : α → β} {item : Decoder β}

theorem mapM (h : ∀ v, Understands needed item (f v) fun _ => g v) {vs : List α} {spots : List Spot}
    (hspots : List.Forall₂ Varies (vs.map f) spots) :
    Answers (fun fault => ∃ pair ∈ (vs.map f).zip spots, Flaw needed pair.1 pair.2 fault)
      (vs.map g) (spots.mapM item) := by
  induction vs generalizing spots with
  | nil =>
    cases hspots
    exact .of_ok (by simp)
  | cons v vs ih =>
    obtain _ | ⟨hs, hspots⟩ := hspots
    rw [List.mapM_cons]
    refine ((h v _ hs).bind ((ih hspots).bind_ok (by rfl))).congr fun fault => ?_
    rw [List.map_cons, List.zip_cons_cons, List.exists_mem_cons_iff]

theorem list (h : ∀ v, Understands needed item (f v) fun _ => g v) (vs : List α) :
    Understands needed (Decoder.list item) (.sequence (vs.map f)) fun _ => vs.map g := by
  rintro s (_ | ⟨hnode, hitems⟩ | _)
  rw [Decoder.list, Spot.items, hnode]
  exact (mapM h hitems).congr fun _ => flaw_sequence_iff hnode

theorem triple {make : β → β → β → σ} (h : ∀ v, Understands needed item (f v) fun _ => g v)
    (x y z : α) :
    Understands needed (Decoder.triple item make) (.sequence ([x, y, z].map f))
      fun _ => make (g x) (g y) (g z) := by
  rintro s (_ | ⟨hnode, hitems⟩ | _)
  rename_i nodes
  have htake : (nodes.mapIdx fun i node => s.child (.index i) node).take 4 =
      nodes.mapIdx fun i node => s.child (.index i) node :=
    List.take_of_length_le (by simp [← hitems.length_eq])
  rw [Decoder.triple, Spot.items, hnode]
  change Answers _ _ (((nodes.mapIdx _).take 4).mapM item >>= _)
  rw [htake]
  exact ((mapM h hitems).bind_ok (by rfl)).congr fun _ => flaw_sequence_iff hnode

end Understands

/-- A reader of records has a field for an entry: the value that it stores is the one that the
accumulator has once the entry is known. -/
def Offers (needed : List String) (fields : List (RecordField σ))
    (draft : (String → Option Spot) → σ) (entry : String × Block) : Prop :=
  ∃ field, fields.find? (·.name = entry.1) = some field ∧ ∀ given,
    field.present (draft given) = (given entry.1).isSome ∧
    ∀ s, Varies entry.2 s → Answers (Flaw needed entry.2 s)
      (draft (Function.update given entry.1 (some s))) (field.read s (draft given))

theorem Understands.offers {fields : List (RecordField σ)} {draft : (String → Option Spot) → σ}
    {get : σ → Option α} {set : Option α → σ → σ} {decode : Decoder α} {v : Spot → α}
    (h : Understands needed decode b v)
    (hfield : fields.find? (·.name = name) = some (.ofOption name get set decode))
    (hget : ∀ given, get (draft given) = (given name).map v)
    (hset : ∀ given s,
      set (some (v s)) (draft given) = draft (Function.update given name (some s))) :
    Offers needed fields draft (name, b) := by
  refine ⟨_, hfield, ?_⟩
  intro given
  refine ⟨?_, ?_⟩
  · simp [RecordField.ofOption, hget]
  · intro s hs
    rw [← hset]
    exact (h s hs).map _

/-- What an accumulator is, by the entries that are known: every entry that can be written has its
field, and no other name does anything. -/
structure Drafts (needed : List String) (fields : List (RecordField σ))
    (entries : List (String × Block)) (draft : (String → Option Spot) → σ) : Prop where
  names : fields.map RecordField.name = entries.map Prod.fst
  known : entries.Forall (Offers needed fields draft)
  unknown : ∀ name, name ∉ entries.map Prod.fst → ∀ given value,
    draft (Function.update given name value) = draft given

/-- The flaws that an entry adds to those before it. -/
def EntryFlaw (needed : List String) (entries : List (String × Block)) (s : Spot)
    (pre : List (Node × Node)) (pair : Node × Node) (fault : Fault) : Prop :=
  ∃ name ∈ entries.map Prod.fst, s.root.name? pair.1 = some name ∧
    ((s.valueIn pre name).isSome ∧ fault = s.fault (.duplicateField name) ∨
      s.valueIn pre name = none ∧ ∃ block, (name, block) ∈ entries ∧
        Flaw needed block (s.child (pair.1.step name) pair.2) fault)

theorem entryFlaw_iff (hkey : s.root.name? key = some name) :
    EntryFlaw needed entries s pre (key, value) fault ↔ name ∈ entries.map Prod.fst ∧
      ((s.valueIn pre name).isSome ∧ fault = s.fault (.duplicateField name) ∨
        s.valueIn pre name = none ∧ ∃ block, (name, block) ∈ entries ∧
          Flaw needed block (s.child (key.step name) value) fault) := by
  constructor
  · rintro ⟨other, hname, hother, hflaw⟩
    obtain rfl := Option.some.inj (hother.symm.trans hkey)
    exact ⟨hname, hflaw⟩
  · rintro ⟨hname, hflaw⟩
    exact ⟨name, hname, hkey, hflaw⟩

/-- The flaws of some entries after others. -/
def EntriesFlaw (needed : List String) (entries : List (String × Block)) (s : Spot)
    (pre post : List (Node × Node)) (fault : Fault) : Prop :=
  ∃ mid pair rest, post = mid ++ pair :: rest ∧ EntryFlaw needed entries s (pre ++ mid) pair fault

theorem not_entriesFlaw_nil : ¬ EntriesFlaw needed entries s pre [] fault := by
  rintro ⟨mid, pair, rest, h, -⟩
  simp at h

theorem entriesFlaw_cons_iff {pair : Node × Node} :
    EntriesFlaw needed entries s pre (pair :: post) fault ↔
      EntryFlaw needed entries s pre pair fault ∨
        EntriesFlaw needed entries s (pre ++ [pair]) post fault := by
  constructor
  · rintro ⟨mid, other, rest, h, hflaw⟩
    cases mid with
    | nil =>
      obtain ⟨rfl, rfl⟩ := List.cons.inj h
      exact Or.inl (by simpa using hflaw)
    | cons first mid =>
      obtain ⟨rfl, rfl⟩ := List.cons.inj h
      exact Or.inr ⟨mid, other, rest, rfl, by simpa using hflaw⟩
  · rintro (hflaw | ⟨mid, other, rest, rfl, hflaw⟩)
    · exact ⟨[], pair, post, rfl, by simpa using hflaw⟩
    · exact ⟨pair :: mid, other, rest, rfl, by simpa using hflaw⟩

theorem exists_mem_entries (h : name ∈ entries.map Prod.fst) :
    ∃ block, (name, block) ∈ entries := by
  obtain ⟨⟨other, block⟩, hentry, rfl⟩ := List.mem_map.mp h
  exact ⟨block, hentry⟩

/-- A mapping has the flaws of its entries, and it misses those that are needed. -/
theorem flaw_mapping_iff {pairs : List (Node × Node)} (h : s.node.pairs? = some pairs) :
    Flaw needed (.mapping entries) s fault ↔ EntriesFlaw needed entries s [] pairs fault ∨
      ∃ name ∈ needed, name ∈ entries.map Prod.fst ∧ s.value? name = none ∧
        fault = s.fault (.missingField name) := by
  constructor
  · rintro (⟨hneeded, hname, hvalue⟩ | ⟨hpairs, hkey, hname, hpre⟩ | ⟨hentry, hvalue, hfault⟩ | _)
    · exact Or.inr ⟨_, hneeded, hname, hvalue, rfl⟩
    · obtain rfl := Option.some.inj (hpairs.symm.trans h)
      refine Or.inl ⟨_, _, _, rfl, _, hname, hkey, Or.inl ⟨?_, rfl⟩⟩
      exact Spot.isSome_valueIn_iff.mpr hpre
    · obtain ⟨pre, pair, post, rfl, hpre, hkey, rfl⟩ := (Spot.value?_eq_some_iff h).mp hvalue
      exact Or.inl ⟨_, _, _, rfl, _, List.mem_map_of_mem hentry, hkey,
        Or.inr ⟨hpre, _, hentry, hfault⟩⟩
  · rintro (⟨pre, pair, post, rfl, name, hname, hkey, hflaw⟩ | ⟨name, hneeded, hname, hvalue, rfl⟩)
    · rw [List.nil_append] at hflaw
      obtain ⟨hpre, rfl⟩ | ⟨hpre, block, hentry, hfault⟩ := hflaw
      · exact .repeated h hkey hname (Spot.isSome_valueIn_iff.mp hpre)
      · refine .value hentry ?_ hfault
        exact (Spot.value?_eq_some_iff h).mpr ⟨_, _, _, rfl, hpre, hkey, rfl⟩
    · exact .missing hneeded hname hvalue

namespace Drafts

variable {fields : List (RecordField σ)} {draft : (String → Option Spot) → σ}

theorem find?_eq_none (h : Drafts needed fields entries draft)
    (hname : name ∉ entries.map Prod.fst) :
    fields.find? (·.name = name) = none := by
  rw [List.find?_eq_none]
  intro field hfield
  rw [decide_eq_true_iff]
  rintro rfl
  exact hname (h.names ▸ List.mem_map_of_mem hfield)

/-- One entry is passed over, refused, or read into the accumulator. -/
theorem entry (h : Drafts needed fields entries draft) (hkey : s.root.name? key = some name)
    (hend : name ∈ entries.map Prod.fst ∨ value.stop? = none)
    (hvalue : s.valueIn pre name = none → ∀ block, (name, block) ∈ entries →
      Varies block (s.child (key.step name) value)) :
    Answers (EntryFlaw needed entries s pre (key, value))
      (draft (s.valueIn (pre ++ [(key, value)])))
      (Decoder.entry fields s (draft (s.valueIn pre)) key value) := by
  rw [Decoder.entry, Spot.keyName_eq hkey, Spot.valueIn_concat hkey]
  by_cases hname : name ∈ entries.map Prod.fst
  · obtain ⟨block, hentry⟩ := exists_mem_entries hname
    obtain ⟨field, hfield, hstep⟩ := List.forall_iff_forall_mem.mp h.known _ hentry
    simp only [bind, Except.bind, hfield, (hstep _).1]
    cases hpre : s.valueIn pre name with
    | some earlier =>
      exact (entryFlaw_iff hkey).mpr ⟨hname, Or.inl ⟨by rw [hpre]; rfl, rfl⟩⟩
    | none =>
      -- The value is a variant of every block under its name, so no flaw of any of them is missed.
      have hread (block : Block) (hentry : (name, block) ∈ entries) :
          Answers (Flaw needed block (s.child (key.step name) value))
            (draft (Function.update (s.valueIn pre) name (some (s.child (key.step name) value))))
            (field.read (s.child (key.step name) value) (draft (s.valueIn pre))) := by
        obtain ⟨other, hother, hstep'⟩ := List.forall_iff_forall_mem.mp h.known _ hentry
        obtain rfl := Option.some.inj (hother.symm.trans hfield)
        exact (hstep' _).2 _ (hvalue hpre block hentry)
      refine (Answers.of_exists ⟨block, hentry⟩ hread).congr fun fault => ?_
      simp [entryFlaw_iff hkey, hname, hpre]
  · simp only [bind, Except.bind, h.find?_eq_none hname, hend.resolve_left hname,
      h.unknown name hname]
    exact .of_ok fun fault hflaw => hname ((entryFlaw_iff hkey).mp hflaw).1

/-- Every entry of a variant is read in turn. -/
theorem foldlM (h : Drafts needed fields entries draft) (hs : Varies (.mapping entries) s)
    (hpairs : s.node.pairs? = some (pre ++ post)) :
    Answers (EntriesFlaw needed entries s pre post) (draft (s.valueIn (pre ++ post)))
      (post.foldlM (fun acc pair => Decoder.entry fields s acc pair.1 pair.2)
        (draft (s.valueIn pre))) := by
  -- The accumulator is the draft of the entries before; the induction is on those that are left.
  induction post generalizing pre with
  | nil =>
    rw [List.append_nil]
    exact .of_ok fun _ => not_entriesFlaw_nil
  | cons pair post ih =>
    obtain ⟨key, value⟩ := pair
    obtain _ | _ | ⟨hpairs', hkeys, hvalues⟩ := hs
    obtain rfl := Option.some.inj (hpairs'.symm.trans hpairs)
    obtain ⟨name, hkey, hend⟩ := hkeys (key, value) (by simp)
    have hvalue (hpre : s.valueIn pre name = none) (block : Block)
        (hentry : (name, block) ∈ entries) : Varies block (s.child (key.step name) value) :=
      hvalues _ _ _ hentry
        ((Spot.value?_eq_some_iff hpairs).mpr ⟨pre, (key, value), post, rfl, hpre, hkey, rfl⟩)
    rw [List.append_cons] at hpairs ⊢
    rw [List.foldlM_cons]
    exact ((h.entry hkey hend hvalue).bind (ih hpairs)).congr fun fault => entriesFlaw_cons_iff

/-- A record whose reader reports what is missing once all entries are read. -/
theorem understands (h : Drafts needed fields entries draft) (expected : String)
    {finish : Spot → σ → Except Fault α} {v : Spot → α}
    (hfinish : ∀ s, Answers (fun fault => ∃ name ∈ needed, name ∈ entries.map Prod.fst ∧
      s.value? name = none ∧ fault = s.fault (.missingField name)) (v s)
        (finish s (draft s.value?))) :
    Understands needed
      (fun s => Decoder.record expected fields (draft fun _ => none) s >>= finish s)
      (.mapping entries) v := by
  intro s hs
  have hpairs : ∃ pairs, s.node.pairs? = some pairs := by
    obtain _ | _ | ⟨hpairs, -, -⟩ := hs
    exact ⟨_, hpairs⟩
  obtain ⟨pairs, hpairs⟩ := hpairs
  have hread : Answers (EntriesFlaw needed entries s [] pairs) (draft (s.valueIn pairs)) _ :=
    h.foldlM hs hpairs
  have hfinish := hfinish s
  rw [Spot.value?_eq hpairs] at hfinish
  change Answers _ _ (Decoder.record _ _ _ s >>= finish s)
  rw [Decoder.record, Spot.entries_eq hpairs]
  refine (hread.bind hfinish).congr fun fault => ?_
  rw [← Spot.value?_eq hpairs]
  exact flaw_mapping_iff hpairs

end Drafts

end Strapdown.Yaml
