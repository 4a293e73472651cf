import Strapdown.Proofs.Yaml.Tokens

/-! The tokens of written values. -/
namespace Strapdown.Yaml
open Lexer (Emits InBlock opening opened)

variable {n : ℕ} {s : Lexer} {rest : List Char} {indent : ℤ} {outer : List ℤ}
variable {key : String} {item value : Block} {items : List Block} {entries : List (String × Block)}

namespace Block

/-- A key that fits on a line. -/
structure IsKey (key : String) : Prop where
  word : IsWord key.toList
  length_le : key.toList.length ≤ 1024

instance (key : String) : Decidable (IsKey key) :=
  decidable_of_iff (IsWord key.toList ∧ key.toList.length ≤ 1024)
    ⟨fun h => ⟨h.1, h.2⟩, fun h => ⟨h.word, h.length_le⟩⟩

mutual

/-- All scalars and keys are words. -/
def Simple : Block → Prop
  | scalar text => IsWord text.toList
  | sequence items => SimpleItems items
  | mapping entries => SimpleEntries entries

def SimpleItems : List Block → Prop
  | [] => True
  | item :: items => Simple item ∧ SimpleItems items

def SimpleEntries : List (String × Block) → Prop
  | [] => True
  | (key, value) :: entries => IsKey key ∧ Simple value ∧ SimpleEntries entries

end

mutual

/-- The tokens of a value that stands by itself. -/
def kinds : Block → List Token.Kind
  | scalar text => [.scalar .plain text]
  | sequence [] => [.flowSequenceStart, .flowSequenceEnd]
  | sequence (item :: items) =>
    .blockSequenceStart :: (.blockEntry :: (kinds item ++ itemKinds items)) ++ [.blockEnd]
  | mapping [] => [.flowMappingStart, .flowMappingEnd]
  | mapping ((key, value) :: entries) =>
    .blockMappingStart :: (.key :: .scalar .plain key :: .value ::
      (valueKinds value ++ entryKinds entries)) ++ [.blockEnd]

def itemKinds : List Block → List Token.Kind
  | [] => []
  | item :: items => .blockEntry :: (kinds item ++ itemKinds items)

def entryKinds : List (String × Block) → List Token.Kind
  | [] => []
  | (key, value) :: entries =>
    .key :: .scalar .plain key :: .value :: (valueKinds value ++ entryKinds entries)

/-- The tokens of a value after its key, where a sequence needs no start and no end. -/
def valueKinds : Block → List Token.Kind
  | scalar text => [.scalar .plain text]
  | sequence [] => [.flowSequenceStart, .flowSequenceEnd]
  | sequence (item :: items) => .blockEntry :: (kinds item ++ itemKinds items)
  | mapping [] => [.flowMappingStart, .flowMappingEnd]
  | mapping ((key, value) :: entries) =>
    .blockMappingStart :: (.key :: .scalar .plain key :: .value ::
      (valueKinds value ++ entryKinds entries)) ++ [.blockEnd]

end

/-- The text of a value is read as its tokens, from the column on that it is written for. -/
def Emitted (b : Block) : Prop :=
  ∀ {n : ℕ} {s : Lexer} {rest : List Char} {indent : ℤ} {outer : List ℤ},
    InBlock s (layout n b ++ rest) indent outer → Follows indent rest → 0 ≤ indent → indent < n →
      s.mark.column = n → s.keyAllowed = true →
        ∃ t, Emits s b.kinds t ∧ InBlock t rest indent outer

def ItemsEmitted (items : List Block) : Prop :=
  ∀ {n : ℕ} {s : Lexer} {rest : List Char} {outer : List ℤ},
    InBlock s (layoutItems n items ++ rest) n outer → Follows n rest →
      ∃ t, Emits s (itemKinds items) t ∧ InBlock t rest n outer

def EntriesEmitted (entries : List (String × Block)) : Prop :=
  ∀ {n : ℕ} {s : Lexer} {rest : List Char} {outer : List ℤ},
    InBlock s (layoutEntries n entries ++ rest) n outer → Follows n rest →
      ∃ t, Emits s (entryKinds entries) t ∧ InBlock t rest n outer

def ValueEmitted (value : Block) : Prop :=
  ∀ {n : ℕ} {s : Lexer} {rest : List Char} {outer : List ℤ},
    InBlock s (layoutValue n value ++ rest) n outer → Follows n rest → n < s.mark.column →
      ∃ t, Emits s value.valueKinds t ∧ InBlock t rest n outer

theorem starts_dash (cs : List Char) : Starts ('-' :: cs) :=
  ⟨'-', cs, rfl, rfl, by decide, by decide⟩

theorem starts_layout (n : ℕ) {b : Block} (h : b.Simple) : Starts (layout n b) := by
  cases b with
  | scalar text =>
    rw [layout]
    exact IsWord.starts h
  | sequence items =>
    cases items with
    | nil =>
      rw [layout]
      exact ⟨'[', [']'], rfl, rfl, by decide, by decide⟩
    | cons item items =>
      rw [layout]
      exact starts_dash _
  | mapping entries =>
    rcases entries with _ | ⟨⟨key, value⟩, entries⟩
    · rw [layout]
      exact ⟨'\x7b', ['\x7d'], rfl, rfl, by decide, by decide⟩
    · rw [layout]
      exact h.1.word.starts.append _

theorem follows_items (n : ℕ) (items : List Block) (h : Follows n rest) :
    Follows n (layoutItems n items ++ rest) := by
  cases items with
  | nil => exact h
  | cons item items =>
    rw [layoutItems, List.append_assoc]
    exact .line le_rfl (starts_dash _)

theorem follows_entries (n : ℕ) (hentries : SimpleEntries entries) (h : Follows n rest) :
    Follows n (layoutEntries n entries ++ rest) := by
  rcases entries with _ | ⟨⟨key, value⟩, entries⟩
  · exact h
  · rw [layoutEntries, List.append_assoc, List.append_assoc]
    exact .line le_rfl (hentries.1.word.starts.append _)

/-- The items of a sequence from the first dash on. -/
theorem exists_emits_items (hsimple : item.Simple) (hitem : Emitted item)
    (hitems : ItemsEmitted items)
    (h : InBlock s ('-' :: ' ' :: (layout (n + 2) item ++ layoutItems n items) ++ rest) indent outer)
    (hrest : Follows n rest) (hindent : indent ≤ n) (hcolumn : s.mark.column = n)
    (hallowed : s.keyAllowed = true) :
    ∃ t, Emits s (opening indent n .blockSequenceStart ++ itemKinds (item :: items)) t ∧
      InBlock t rest n (opened indent n outer) := by
  subst hcolumn
  rw [List.cons_append, List.cons_append, List.append_assoc] at h
  obtain ⟨t, hdash, ht, htallowed, htcolumn⟩ := Lexer.emits_dash h hallowed hindent
  obtain ⟨u, hblank, hu, hucolumn, huallowed⟩ := Lexer.emits_blank ht
    ((starts_layout _ hsimple).append _) (by omega)
  obtain ⟨v, hv, hvin⟩ := hitem hu (follows_items _ items hrest) (by omega) (by omega) (by omega)
    (huallowed.trans htallowed)
  obtain ⟨w, hw, hwin⟩ := hitems hvin hrest
  refine ⟨w, ?_, hwin⟩
  have hall := ((hdash.trans hblank).trans hv).trans hw
  rw [itemKinds]
  simpa using hall

/-- The entries of a mapping from the first key on. -/
theorem exists_emits_entries (hkey : IsKey key) (hvalue : ValueEmitted value)
    (hsimple : SimpleEntries entries) (hentries : EntriesEmitted entries)
    (h : InBlock s (key.toList ++ ':' :: (layoutValue n value ++ layoutEntries n entries) ++ rest)
      indent outer)
    (hrest : Follows n rest) (hindent : indent ≤ n) (hcolumn : s.mark.column = n)
    (hallowed : s.keyAllowed = true) :
    ∃ t, Emits s (opening indent n .blockMappingStart ++ entryKinds ((key, value) :: entries)) t ∧
      InBlock t rest n (opened indent n outer) := by
  subst hcolumn
  rw [List.append_assoc, List.cons_append, List.append_assoc] at h
  have hspace : atSpace (layoutValue s.mark.column value ++
      (layoutEntries s.mark.column entries ++ rest)) = true := by
    cases value with
    | scalar text => rw [layoutValue]; rfl
    | sequence items => cases items <;> rw [layoutValue] <;> rfl
    | mapping entries => rcases entries with _ | ⟨⟨k, v⟩, es⟩ <;> rw [layoutValue] <;> rfl
  obtain ⟨t, hk, ht, -, htcolumn⟩ := Lexer.emits_key h hkey.word hkey.length_le hspace hallowed hindent
  obtain ⟨u, hv, hu⟩ := hvalue ht (follows_entries _ hsimple hrest) (by omega)
  obtain ⟨w, hw, hwin⟩ := hentries hu hrest
  refine ⟨w, ?_, hwin⟩
  have hall := (hk.trans hv).trans hw
  rw [entryKinds]
  simpa using hall

theorem exists_emits_scalar {text : String} (htext : IsWord text.toList)
    (h : InBlock s (text.toList ++ rest) indent outer) (hrest : Follows indent rest)
    (hcolumn : indent < s.mark.column) :
    ∃ t, Emits s [.scalar .plain text] t ∧ InBlock t rest indent outer := by
  have hword := Lexer.emits_word h htext hrest hcolumn
  rwa [String.ofList_toList] at hword

theorem exists_emits_brackets (h : InBlock s ('[' :: ']' :: rest) indent outer)
    (hcolumn : indent < s.mark.column) :
    ∃ t, Emits s [.flowSequenceStart, .flowSequenceEnd] t ∧ InBlock t rest indent outer :=
  Lexer.emits_flow h ⟨rfl, by decide, by decide⟩ ⟨rfl, by decide, by decide⟩ hcolumn
    (fun s cs => (Lexer.token?_bracket s (']' :: cs)).1) fun s cs => (Lexer.token?_bracket s cs).2

theorem exists_emits_braces (h : InBlock s ('\x7b' :: '\x7d' :: rest) indent outer)
    (hcolumn : indent < s.mark.column) :
    ∃ t, Emits s [.flowMappingStart, .flowMappingEnd] t ∧ InBlock t rest indent outer :=
  Lexer.emits_flow h ⟨rfl, by decide, by decide⟩ ⟨rfl, by decide, by decide⟩ hcolumn
    (fun s cs => (Lexer.token?_brace s ('\x7d' :: cs)).1) fun s cs => (Lexer.token?_brace s cs).2

theorem opening_of_lt {kind : Token.Kind} (h : indent < n) : opening indent n kind = [kind] :=
  if_pos h

theorem opening_self (n : ℕ) (kind : Token.Kind) : opening n n kind = [] := if_neg (lt_irrefl _)

theorem opened_of_lt (h : indent < n) : opened indent n outer = indent :: outer := if_pos h

theorem opened_self (n : ℕ) (outer : List ℤ) : opened n n outer = outer := if_neg (lt_irrefl _)

/-- The entries of a mapping that lies further in, with the end of the mapping. -/
theorem exists_emits_mapping (hkey : IsKey key) (hvalue : ValueEmitted value)
    (hsimple : SimpleEntries entries) (hentries : EntriesEmitted entries)
    (h : InBlock s (layout n (mapping ((key, value) :: entries)) ++ rest) indent outer)
    (hrest : Follows indent rest) (hnonneg : 0 ≤ indent) (hindent : indent < n)
    (hcolumn : s.mark.column = n) (hallowed : s.keyAllowed = true) :
    ∃ t, Emits s (kinds (mapping ((key, value) :: entries))) t ∧ InBlock t rest indent outer := by
  rw [layout] at h
  obtain ⟨t, ht, htin⟩ := exists_emits_entries hkey hvalue hsimple hentries h
    (hrest.mono hindent.le) hindent.le hcolumn hallowed
  rw [opened_of_lt hindent] at htin
  obtain ⟨u, hu, huin⟩ := Lexer.emits_blockEnd htin hrest hindent (by omega)
  refine ⟨u, ?_, huin⟩
  have hall := ht.trans hu
  rw [opening_of_lt hindent] at hall
  rw [kinds]
  exact hall

mutual

theorem emitted : ∀ b : Block, b.Simple → Emitted b
  | scalar text, hsimple => by
    intro h hrest hnonneg hindent hcolumn hallowed
    rw [layout] at h
    rw [kinds]
    exact exists_emits_scalar hsimple h hrest (by omega)
  | sequence [], _ => by
    intro h hrest hnonneg hindent hcolumn hallowed
    rw [layout] at h
    rw [kinds]
    exact exists_emits_brackets h (by omega)
  | sequence (item :: items), hsimple => by
    intro h hrest hnonneg hindent hcolumn hallowed
    obtain ⟨hitem, hitems⟩ := hsimple
    rw [layout] at h
    obtain ⟨t, ht, htin⟩ := exists_emits_items hitem (emitted item hitem) (itemsEmitted items hitems)
      h (hrest.mono hindent.le) hindent.le hcolumn hallowed
    rw [opened_of_lt hindent] at htin
    obtain ⟨u, hu, huin⟩ := Lexer.emits_blockEnd htin hrest hindent (by omega)
    refine ⟨u, ?_, huin⟩
    have hall := ht.trans hu
    rw [opening_of_lt hindent] at hall
    rw [kinds]
    exact hall
  | mapping [], _ => by
    intro h hrest hnonneg hindent hcolumn hallowed
    rw [layout] at h
    rw [kinds]
    exact exists_emits_braces h (by omega)
  | mapping ((key, value) :: entries), hsimple => by
    intro h hrest hnonneg hindent hcolumn hallowed
    obtain ⟨hkey, hvalue, hentries⟩ := hsimple
    exact exists_emits_mapping hkey (valueEmitted value hvalue) hentries
      (entriesEmitted entries hentries) h hrest hnonneg hindent hcolumn hallowed

theorem itemsEmitted : ∀ items : List Block, SimpleItems items → ItemsEmitted items
  | [], _ => by
    intro h hrest
    exact ⟨_, Emits.refl _, h⟩
  | item :: items, ⟨hitem, hitems⟩ => by
    intro h hrest
    rw [layoutItems, List.append_assoc] at h
    obtain ⟨t, ht, htin, hcolumn, hallowed⟩ := Lexer.emits_newline h (starts_dash _) le_rfl
    obtain ⟨u, hu, huin⟩ := exists_emits_items hitem (emitted item hitem)
      (itemsEmitted items hitems) htin hrest le_rfl hcolumn hallowed
    rw [opened_self] at huin
    rw [opening_self] at hu
    exact ⟨u, ht.trans hu, huin⟩

theorem entriesEmitted : ∀ entries : List (String × Block), SimpleEntries entries →
    EntriesEmitted entries
  | [], _ => by
    intro h hrest
    exact ⟨_, Emits.refl _, h⟩
  | (key, value) :: entries, ⟨hkey, hvalue, hentries⟩ => by
    intro h hrest
    rw [layoutEntries, List.append_assoc] at h
    obtain ⟨t, ht, htin, hcolumn, hallowed⟩ := Lexer.emits_newline h
      ((hkey.word.starts.append _).append _) le_rfl
    obtain ⟨u, hu, huin⟩ := exists_emits_entries hkey (valueEmitted value hvalue) hentries
      (entriesEmitted entries hentries) htin hrest le_rfl hcolumn hallowed
    rw [opened_self] at huin
    rw [opening_self] at hu
    exact ⟨u, ht.trans hu, huin⟩

theorem valueEmitted : ∀ value : Block, value.Simple → ValueEmitted value
  | scalar text, hsimple => by
    intro h hrest hcolumn
    rw [layoutValue, List.cons_append] at h
    obtain ⟨t, ht, htin, htcolumn, -⟩ := Lexer.emits_blank h
      ((IsWord.starts hsimple).append _) (by omega)
    obtain ⟨u, hu, huin⟩ := exists_emits_scalar hsimple htin hrest (by omega)
    rw [valueKinds]
    exact ⟨u, ht.trans hu, huin⟩
  | sequence [], _ => by
    intro h hrest hcolumn
    rw [layoutValue] at h
    obtain ⟨t, ht, htin, htcolumn, -⟩ := Lexer.emits_blank h
      ⟨'[', _, rfl, rfl, by decide, by decide⟩ (by omega)
    obtain ⟨u, hu, huin⟩ := exists_emits_brackets htin (by omega)
    rw [valueKinds]
    exact ⟨u, ht.trans hu, huin⟩
  | sequence (item :: items), hsimple => by
    intro h hrest hcolumn
    rw [layoutValue, ← layoutItems] at h
    rw [valueKinds, ← itemKinds]
    exact itemsEmitted (item :: items) hsimple h hrest
  | mapping [], _ => by
    intro h hrest hcolumn
    rw [layoutValue] at h
    obtain ⟨t, ht, htin, htcolumn, -⟩ := Lexer.emits_blank h
      ⟨'\x7b', _, rfl, rfl, by decide, by decide⟩ (by omega)
    obtain ⟨u, hu, huin⟩ := exists_emits_braces htin (by omega)
    rw [valueKinds]
    exact ⟨u, ht.trans hu, huin⟩
  | mapping ((key, value) :: entries), hsimple => by
    intro h hrest hcolumn
    obtain ⟨hkey, hvalue, hentries⟩ := hsimple
    rw [layoutValue, List.append_assoc] at h
    obtain ⟨t, ht, htin, htcolumn, hallowed⟩ := Lexer.emits_newline h
      ((hkey.word.starts.append _).append _) (by omega)
    obtain ⟨u, hu, huin⟩ := exists_emits_mapping hkey (valueEmitted value hvalue) hentries
      (entriesEmitted entries hentries) (by rw [layout]; exact htin) hrest (by omega) (by omega)
      htcolumn hallowed
    refine ⟨u, ?_, huin⟩
    rw [kinds] at hu
    rw [valueKinds]
    exact ht.trans hu

end

theorem isAllowed_of_mem {word : List Char} (h : IsWord word) : ∀ c ∈ word, isAllowed c = true := by
  intro c hc
  have hbound := (h.chars c hc).toNat_mem
  simp only [isAllowed, Bool.or_eq_true, Bool.and_eq_true, decide_eq_true_eq]
  omega

theorem isAllowed_newline (n : ℕ) : ∀ c ∈ newline n, isAllowed c = true := by
  intro c hc
  rcases List.mem_cons.mp hc with rfl | hc
  · decide
  · rw [List.eq_of_mem_replicate hc]
    decide

mutual

theorem isAllowed_layout (n : ℕ) : ∀ b : Block, b.Simple → ∀ c ∈ layout n b, isAllowed c = true
  | scalar text, hsimple => isAllowed_of_mem hsimple
  | sequence [], _ => by
    rw [layout]
    exact List.all_eq_true.mp (by decide)
  | sequence (item :: items), hsimple => by
    rw [layout]
    simp only [List.forall_mem_cons, List.forall_mem_append]
    exact ⟨by decide, by decide, isAllowed_layout (n + 2) item hsimple.1,
      isAllowed_items n items hsimple.2⟩
  | mapping [], _ => by
    rw [layout]
    exact List.all_eq_true.mp (by decide)
  | mapping ((key, value) :: entries), hsimple => by
    rw [layout]
    simp only [List.forall_mem_cons, List.forall_mem_append]
    exact ⟨isAllowed_of_mem hsimple.1.word, by decide, isAllowed_value n value hsimple.2.1,
      isAllowed_entries n entries hsimple.2.2⟩

theorem isAllowed_items (n : ℕ) : ∀ items : List Block, SimpleItems items →
    ∀ c ∈ layoutItems n items, isAllowed c = true
  | [], _ => by
    rw [layoutItems]
    exact List.forall_mem_nil _
  | item :: items, hsimple => by
    rw [layoutItems]
    simp only [List.forall_mem_cons, List.forall_mem_append]
    exact ⟨isAllowed_newline n, by decide, by decide, isAllowed_layout (n + 2) item hsimple.1,
      isAllowed_items n items hsimple.2⟩

theorem isAllowed_entries (n : ℕ) : ∀ entries : List (String × Block), SimpleEntries entries →
    ∀ c ∈ layoutEntries n entries, isAllowed c = true
  | [], _ => by
    rw [layoutEntries]
    exact List.forall_mem_nil _
  | (key, value) :: entries, hsimple => by
    rw [layoutEntries]
    simp only [List.forall_mem_cons, List.forall_mem_append]
    exact ⟨isAllowed_newline n, isAllowed_of_mem hsimple.1.word, by decide,
      isAllowed_value n value hsimple.2.1, isAllowed_entries n entries hsimple.2.2⟩

theorem isAllowed_value (n : ℕ) : ∀ value : Block, value.Simple →
    ∀ c ∈ layoutValue n value, isAllowed c = true
  | scalar text, hsimple => by
    rw [layoutValue]
    exact List.forall_mem_cons.mpr ⟨by decide, isAllowed_of_mem hsimple⟩
  | sequence [], _ => by
    rw [layoutValue]
    exact List.all_eq_true.mp (by decide)
  | sequence (item :: items), hsimple => by
    rw [layoutValue]
    simp only [List.forall_mem_cons, List.forall_mem_append]
    exact ⟨isAllowed_newline n, by decide, by decide, isAllowed_layout (n + 2) item hsimple.1,
      isAllowed_items n items hsimple.2⟩
  | mapping [], _ => by
    rw [layoutValue]
    exact List.all_eq_true.mp (by decide)
  | mapping ((key, value) :: entries), hsimple => by
    rw [layoutValue]
    simp only [List.forall_mem_cons, List.forall_mem_append]
    exact ⟨isAllowed_newline _, isAllowed_of_mem hsimple.1.word, by decide,
      isAllowed_value _ value hsimple.2.1, isAllowed_entries _ entries hsimple.2.2⟩

end

/-- A whole value leads to the end of its text, where at most one collection is open. -/
theorem exists_emits_text {s : Lexer} (b : Block) (hsimple : b.Simple)
    (h : InBlock s (layout 0 b ++ ['\n']) (-1) []) (hcolumn : s.mark.column = 0)
    (hallowed : s.keyAllowed = true) : ∃ kinds t indent outer, Emits s kinds t ∧
      InBlock t ['\n'] indent outer ∧ (indent = -1 ∧ outer = [] ∨ indent = 0 ∧ outer = [-1]) ∧
      kinds ++ (if indent = 0 then [.blockEnd] else []) = b.kinds := by
  have hlt : (-1 : ℤ) < s.mark.column := by omega
  cases b with
  | scalar text =>
    rw [layout] at h
    obtain ⟨t, ht, htin⟩ := exists_emits_scalar hsimple h .finish hlt
    exact ⟨_, t, _, _, ht, htin, Or.inl ⟨rfl, rfl⟩, by rw [kinds]; rfl⟩
  | sequence items =>
    cases items with
    | nil =>
      rw [layout] at h
      obtain ⟨t, ht, htin⟩ := exists_emits_brackets h hlt
      exact ⟨_, t, _, _, ht, htin, Or.inl ⟨rfl, rfl⟩, by rw [kinds]; rfl⟩
    | cons item items =>
      rw [layout] at h
      obtain ⟨hitem, hitems⟩ := hsimple
      obtain ⟨t, ht, htin⟩ := exists_emits_items hitem (emitted item hitem)
        (itemsEmitted items hitems) h .finish (by decide) hcolumn hallowed
      exact ⟨_, t, _, _, ht, htin, Or.inr ⟨rfl, rfl⟩, by rw [kinds]; rfl⟩
  | mapping entries =>
    rcases entries with _ | ⟨⟨key, value⟩, entries⟩
    · rw [layout] at h
      obtain ⟨t, ht, htin⟩ := exists_emits_braces h hlt
      exact ⟨_, t, _, _, ht, htin, Or.inl ⟨rfl, rfl⟩, by rw [kinds]; rfl⟩
    · rw [layout] at h
      obtain ⟨hkey, hvalue, hentries⟩ := hsimple
      obtain ⟨t, ht, htin⟩ := exists_emits_entries hkey (valueEmitted value hvalue) hentries
        (entriesEmitted entries hentries) h .finish (by decide) hcolumn hallowed
      exact ⟨_, t, _, _, ht, htin, Or.inr ⟨rfl, rfl⟩, by rw [kinds]; rfl⟩

/-- The tokens of a whole text. -/
theorem kinds_ofText (b : Block) (h : b.Simple) :
    (Token.ofText b.text.toList).map Token.kind = b.kinds ++ [.streamEnd] := by
  have hallowed : b.text.toList.all isAllowed = true := by
    rw [toList_text, List.all_eq_true]
    exact List.forall_mem_append.mpr ⟨isAllowed_layout 0 b h, List.all_eq_true.mp (by decide)⟩
  have hs : InBlock (Lexer.ofText b.text.toList) (layout 0 b ++ ['\n']) (-1) [] :=
    ⟨toList_text b, rfl, rfl, rfl, by rintro k ⟨⟩⟩
  obtain ⟨kinds, t, indent, outer, ht, htin, hindent, hkinds⟩ := exists_emits_text b h hs rfl rfl
  obtain ⟨ts, hts, hlast⟩ := Lexer.exists_reads htin hindent
  rw [Token.ofText, if_pos hallowed, Lexer.run_of_reads (ht.reads ts hts), hlast, ht.kinds_eq,
    ← hkinds]
  simp [Lexer.ofText]

end Block
end Strapdown.Yaml
