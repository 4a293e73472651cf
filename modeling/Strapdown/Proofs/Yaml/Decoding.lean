import Strapdown.Proofs.Yaml.Numbers
import Strapdown.Proofs.Yaml.Trees
import Strapdown.Yaml.Decoder

/-! Values of known types that are written into a document and read out of it again. -/
namespace Strapdown.Yaml
open Strapdown.Decimal

variable {α β σ : Type} {b : Block} {d : Decoder α} {v : α} {node : Node} {s : Spot}

theorem Shows.target_eq (h : Shows b node) (root : Node) : root.target node = node := by
  cases h <;> rfl

theorem isWordChar_of_isNumeral {c : Char} (h : IsNumeral c) : IsWordChar c := by
  rcases h with h | rfl | rfl | rfl | rfl
  · exact Or.inl (by rw [Char.isAlphanum, h, Bool.or_true])
  all_goals decide

theorem isWord_signed {cs : List Char} (sign : Float.Model.UnpackedFloat.Sign) (h : IsWord cs) :
    IsWord (signText sign ++ cs) := by
  cases sign with
  | positive => exact h
  | negative =>
    obtain ⟨c, hc, halphanum⟩ := h.alphanum
    exact ⟨List.forall_mem_cons.mpr ⟨by decide, h.chars⟩, c, List.mem_cons_of_mem _ hc, halphanum⟩

/-- A style that writes every number as a word. -/
structure WritesWords (style : Decimal.Style) : Prop where
  wholeEnd : style.wholeEnd = [] ∨ style.wholeEnd = ['.', '0']
  infinite : IsWord style.infinite
  undefined : IsWord style.undefined

theorem WritesWords.isWord_write {style : Decimal.Style} (h : WritesWords style) (x : Float32) :
    IsWord (style.write x).toList := by
  rw [Decimal.Style.write, String.toList_ofList]
  cases Binary.ofFloat32 x with
  | notANumber => exact h.undefined
  | infinity sign => exact isWord_signed sign h.infinite
  | zero sign =>
    refine isWord_signed sign ?_
    rcases h.wholeEnd with hend | hend <;> rw [hend] <;> decide
  | finite sign m e hm =>
    obtain ⟨c, cs, hchars, hc, hcs⟩ := chars_finite style h.wholeEnd sign e hm
    rw [hchars]
    refine isWord_signed sign ⟨fun x hx => isWordChar_of_isNumeral (hcs x hx), c,
      List.mem_cons_self, ?_⟩
    rw [Char.isAlphanum, hc, Bool.or_true]

/-- A number is written as a word. -/
theorem isWord_write (x : Float32) : IsWord (Block.numberStyle.write x).toList :=
  WritesWords.isWord_write ⟨Or.inr rfl, by decide, by decide⟩ x

theorem isWord_toDigits (n : ℕ) : IsWord (Nat.toDigits 10 n) := by
  have halphanum (c : Char) (hc : c ∈ Nat.toDigits 10 n) : c.isAlphanum = true := by
    rw [Char.isAlphanum, isDigits_toDigits n c hc, Bool.or_true]
  obtain ⟨c, hc⟩ := List.exists_mem_of_ne_nil _ (Nat.toDigits_ne_nil (b := 10) (n := n))
  exact ⟨fun c hc => Or.inl (halphanum c hc), c, hc, halphanum c hc⟩

/-- A number without a sign is read as the natural number that it is the decimal of. -/
theorem natural?_toDigits (n : ℕ) : Scalar.natural? (Nat.toDigits 10 n) = some n := by
  rcases Nat.eq_zero_or_pos n with rfl | hn
  · rfl
  have hdigits := isDigits_toDigits n
  have hzero := head?_toDigits hn
  have hvalue := digitsValue?_toDigits n
  obtain ⟨c, cs, hcs⟩ := List.exists_cons_of_ne_nil (Nat.toDigits_ne_nil (b := 10) (n := n))
  rw [hcs] at hdigits hzero hvalue ⊢
  have hc := hdigits c List.mem_cons_self
  have hplus : c ≠ '+' := by
    rintro rfl
    exact absurd hc (by decide)
  have hminus : c ≠ '-' := by
    rintro rfl
    exact absurd hc (by decide)
  have hne : c ≠ '0' := by simpa using hzero
  have hsigned : Scalar.startsSigned (c :: cs) = false := by
    simp [Scalar.startsSigned, hplus, hminus]
  have hpadded : Scalar.isZeroPadded (c :: cs) = false := by
    simp [Scalar.isZeroPadded, hsigned, hne]
  simp [Scalar.natural?, Scalar.magnitude?, hplus, hne, hpadded, hvalue]

theorem ShowsItems.length_eq {items : List Block} {nodes : List Node} (h : ShowsItems items nodes) :
    items.length = nodes.length := by
  induction items generalizing nodes with
  | nil =>
    cases h
    rfl
  | cons item items ih =>
    cases h with
    | cons _ h => rw [List.length_cons, List.length_cons, ih h]

theorem ShowsItems.map_target {items : List Block} {nodes : List Node} (h : ShowsItems items nodes)
    (root : Node) : nodes.map root.target = nodes := by
  induction items generalizing nodes with
  | nil =>
    cases h
    rfl
  | cons item items ih =>
    cases h with
    | cons hnode h => rw [List.map_cons, hnode.target_eq, ih h]

/-- The items of a written sequence, each at its place. -/
theorem items_eq {items : List Block} (expected : String) (h : Shows (.sequence items) s.node) :
    ∃ spots, s.items expected = .ok spots ∧ ShowsItems items (spots.map Spot.node) := by
  rw [Spot.items]
  generalize s.node = node at h
  cases h with
  | @sequence _ nodes mark h =>
    refine ⟨_, rfl, ?_⟩
    have hnodes : (nodes.mapIdx fun i item => s.child (.index i) item).map Spot.node = nodes := by
      refine Eq.trans ?_ (h.map_target s.root)
      refine List.ext_getElem? ?_
      intro i
      rw [List.getElem?_map, List.getElem?_mapIdx, List.getElem?_map, Option.map_map]
      rfl
    rw [hnodes]
    exact h

/-- A value can be written as a block, from which a decoder reads it. -/
structure Decodes (d : Decoder α) (b : Block) (v : α) : Prop where
  simple : b.Simple
  decode : ∀ s : Spot, Shows b s.node → d s = .ok v

namespace Decodes

/-- From the text of the block the decoder reads the value, and it reads the whole text. -/
theorem ofText (h : Decodes d b v) :
    d (.ofRoot (Document.ofText b.text.toList).root) = .ok v ∧
      (Document.ofText b.text.toList).excess = none := by
  obtain ⟨hshows, hexcess⟩ := b.shows_ofText h.simple
  exact ⟨h.decode _ hshows, hexcess⟩

theorem map (h : Decodes d b v) (f : α → β) : Decodes (fun s => (d s).map f) b (f v) := by
  refine ⟨h.simple, ?_⟩
  intro s hs
  rw [h.decode s hs]
  rfl

theorem bind {f : α → Decoder β} {w : β} (h : Decodes d b v) (hf : ∀ s, f v s = .ok w) :
    Decodes (fun s => d s >>= fun x => f x s) b w := by
  refine ⟨h.simple, ?_⟩
  intro s hs
  rw [h.decode s hs]
  exact hf s

theorem scalar {core : Core} {expected text : String} {parse? : String → Option α}
    (hword : IsWord text.toList) (h : parse? text = some v) :
    Decodes (Decoder.scalar core expected parse?) (.scalar text) v := by
  refine ⟨hword, ?_⟩
  intro s hs
  rw [Decoder.scalar]
  generalize s.node = node at hs
  cases hs
  simp [Scalar.reads, h]

/-- A number is read as itself, but for one magnitude. -/
theorem float32 (x : Float32) : Decodes Decoder.float32 (Block.float32 x) (settled x) := by
  obtain ⟨y, hy, hx⟩ := number?_write x
  refine scalar (isWord_write x) ?_
  rw [hy, Option.map_some, hx]

theorem count64 (expected : String) (n : UInt64) :
    Decodes (Decoder.count64 expected) (Block.count n.toNat) n := by
  refine scalar ?_ ?_
  · rw [String.toList_ofList]
    exact isWord_toDigits n.toNat
  · rw [String.toList_ofList, natural?_toDigits, Option.bind_some, if_pos n.toNat_lt]
    simp

variable {f : α → Block} {g : α → β} {item : Decoder β}

theorem simpleItems (h : ∀ v, Decodes item (f v) (g v)) (vs : List α) :
    Block.SimpleItems (vs.map f) := by
  induction vs with
  | nil => trivial
  | cons v vs ih => exact ⟨(h v).simple, ih⟩

/-- Items are read in their order. -/
theorem mapM (h : ∀ v, Decodes item (f v) (g v)) {vs : List α} {spots : List Spot}
    (hspots : ShowsItems (vs.map f) (spots.map Spot.node)) :
    spots.mapM item = .ok (vs.map g) := by
  induction vs generalizing spots with
  | nil =>
    cases spots with
    | nil => rfl
    | cons s spots => cases hspots
  | cons v vs ih =>
    cases spots with
    | nil => cases hspots
    | cons s spots =>
      cases hspots with
      | cons hnode hnodes =>
        rw [List.mapM_cons, (h v).decode s hnode, ih hnodes]
        rfl

theorem list (h : ∀ v, Decodes item (f v) (g v)) (vs : List α) :
    Decodes (Decoder.list item) (.sequence (vs.map f)) (vs.map g) := by
  refine ⟨simpleItems h vs, ?_⟩
  intro s hs
  obtain ⟨spots, hitems, hspots⟩ := items_eq "a sequence" hs
  rw [Decoder.list, hitems]
  exact mapM h hspots

theorem triple {make : β → β → β → σ} (h : ∀ v, Decodes item (f v) (g v)) (x y z : α) :
    Decodes (Decoder.triple item make) (.sequence ([x, y, z].map f)) (make (g x) (g y) (g z)) := by
  refine ⟨simpleItems h _, ?_⟩
  intro s hs
  obtain ⟨spots, hitems, hspots⟩ := items_eq "a matrix array" hs
  have htake : spots.take 4 = spots := by
    have hlength := hspots.length_eq
    rw [List.length_map, List.length_map] at hlength
    exact List.take_of_length_le (by simp [← hlength])
  simp only [Decoder.triple, hitems]
  change ((spots.take 4).mapM item >>= _) = _
  rw [htake, mapM h hspots]
  rfl

end Decodes

/-- Entries that fill an accumulator, each a field that is not there yet. -/
inductive Fills (fields : List (RecordField σ)) : σ → List (String × Block) → σ → Prop
  | nil (acc : σ) : Fills fields acc [] acc
  | cons {acc next last : σ} {key : String} {value : Block} {entries : List (String × Block)}
      {field : RecordField σ} (hkey : Block.IsKey key)
      (hfield : fields.find? (·.name = key) = some field) (hnew : field.present acc = false)
      (hread : Decodes (fun s => field.read s acc) value next)
      (h : Fills fields next entries last) : Fills fields acc ((key, value) :: entries) last

namespace Fills

variable {fields : List (RecordField σ)} {acc last : σ} {entries : List (String × Block)}

theorem simpleEntries (h : Fills fields acc entries last) : Block.SimpleEntries entries := by
  induction h with
  | nil acc => trivial
  | cons hkey hfield hnew hread h ih => exact ⟨hkey, hread.simple, ih⟩

/-- An entry is read as the field that its key names. -/
theorem entry_eq {field : RecordField σ} {next : σ} {key : String} {value : Block} {mark : Mark}
    (hfield : fields.find? (·.name = key) = some field) (hnew : field.present acc = false)
    (hread : Decodes (fun s => field.read s acc) value next) (hnode : Shows value node) (s : Spot) :
    Decoder.entry fields s acc (.scalar mark none ⟨key, .plain, none⟩) node = .ok next := by
  have hname : s.keyName (.scalar mark none ⟨key, .plain, none⟩) = .ok (key, .key key) := rfl
  have hchild : Shows value (s.child (.key key) node).node := by
    rw [Spot.child, hnode.target_eq]
    exact hnode
  rw [Decoder.entry, hname]
  simp only [bind, Except.bind, hfield, hnew]
  exact hread.decode _ hchild

/-- The accumulator is filled entry by entry. -/
theorem foldlM_eq (h : Fills fields acc entries last) {pairs : List (Node × Node)}
    (hpairs : ShowsEntries entries pairs) (s : Spot) :
    pairs.foldlM (fun acc pair => Decoder.entry fields s acc pair.1 pair.2) acc = .ok last := by
  induction h generalizing pairs with
  | nil acc =>
    cases hpairs
    rfl
  | cons hkey hfield hnew hread h ih =>
    cases hpairs with
    | cons mark hnode hmore =>
      rw [List.foldlM_cons, entry_eq hfield hnew hread hnode s]
      exact ih hmore

theorem record (expected : String) (h : Fills fields acc entries last) :
    Decodes (Decoder.record expected fields acc) (.mapping entries) last := by
  refine ⟨h.simpleEntries, ?_⟩
  intro s hs
  rw [Decoder.record, Spot.entries]
  generalize hnode : s.node = node at hs
  cases hs with
  | mapping mark hpairs => exact h.foldlM_eq hpairs s

end Fills
end Strapdown.Yaml
