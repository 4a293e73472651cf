import Strapdown.Proofs.Yaml.Words
import Strapdown.Yaml.Token.Stream

/-! The tokens that a text in block style is read as, one token after the other. -/
namespace Strapdown.Yaml

variable {s t u : Lexer} {c : Char} {cs word rest : List Char} {n : ℕ} {ts : List Token}
variable {kinds more : List Token.Kind} {indent : ℤ} {outer : List ℤ}

namespace Lexer

/-- A text that can be read to its end, with its tokens. -/
inductive Reads : Lexer → List Token → Prop
  | finish {s : Lexer} {ts : List Token} (hnext : s.next? = none) (hfinish : s.finish? = some ts) :
      Reads s ts
  | next {s t : Lexer} {ts : List Token} (hnext : s.next? = some t) (h : Reads t ts) : Reads s ts

theorem run_of_reads (h : Reads s ts) : s.run = ts := by
  induction h with
  | finish hnext hfinish =>
    rw [run]
    split
    · next heq =>
      rw [hnext] at heq
      cases heq
    · rw [hfinish]
      rfl
  | next hnext h ih =>
    rw [run]
    split
    · next heq =>
      rw [hnext] at heq
      cases heq
      exact ih
    · next heq =>
      rw [hnext] at heq
      cases heq

/-- Reading on depends only on where the next token is. -/
theorem reads_of_advance? (h : s.advance? = t.advance?) (ht : Reads t ts) : Reads s ts := by
  have hnext : s.next? = t.next? := by rw [next?, next?, h]
  have hfinish : s.finish? = t.finish? := by rw [finish?, finish?, h]
  cases ht with
  | finish hn hf => exact .finish (hnext.trans hn) (hfinish.trans hf)
  | next hn ht => exact .next (hnext.trans hn) ht

/-- Tokens of some kinds lead from a state to another one. -/
structure Emits (s : Lexer) (kinds : List Token.Kind) (t : Lexer) : Prop where
  reads : ∀ ts, Reads t ts → Reads s ts
  kinds_eq : t.tokens.map Token.kind = kinds.reverse ++ s.tokens.map Token.kind

theorem Emits.refl (s : Lexer) : Emits s [] s := ⟨fun _ h => h, rfl⟩

theorem Emits.trans (h : Emits s kinds t) (h' : Emits t more u) : Emits s (kinds ++ more) u := by
  refine ⟨fun ts hu => h.reads ts (h'.reads ts hu), ?_⟩
  rw [h'.kinds_eq, h.kinds_eq, List.reverse_append, List.append_assoc]

theorem emits_of_advance? (h : s.advance? = t.advance?) (ht : t.tokens = s.tokens) :
    Emits s [] t := ⟨fun _ => reads_of_advance? h, by rw [ht]; rfl⟩

/-- A state in a block: the text that is left, and the block collections that are open. -/
structure InBlock (s : Lexer) (text : List Char) (indent : ℤ) (outer : List ℤ) : Prop where
  rest_eq : s.cursor.rest = text
  indent_eq : s.indent = indent
  outerIndents_eq : s.outerIndents = outer
  outerKeys_eq : s.outerKeys = []
  key_optional : ∀ key ∈ s.key, key.required = false

/-- Moving on within a text leaves the block collections as they are. -/
theorem InBlock.move (h : InBlock s cs indent outer) (rest : List Char) (m : Mark)
    (keyAllowed : Bool) : InBlock { s with cursor := ⟨rest, m⟩, keyAllowed } rest indent outer :=
  ⟨rfl, h.indent_eq, h.outerIndents_eq, h.outerKeys_eq, h.key_optional⟩

theorem InBlock.not_inFlow (h : InBlock s cs indent outer) : s.inFlow = false := by
  rw [inFlow, h.outerKeys_eq]
  rfl

theorem InBlock.checkKeys? (h : InBlock s cs indent outer) : s.checkKeys? = some s := by
  have hnone : s.lacksKey = false := by
    rw [lacksKey, h.outerKeys_eq]
    cases hk : s.key with
    | none => rfl
    | some key => simp [h.key_optional key hk]
  rw [Lexer.checkKeys?, hnone]
  rfl

theorem InBlock.dropKey? (h : InBlock s cs indent outer) : s.dropKey? = some { s with key := none } := by
  have hnone : s.key.any (·.required) = false := by
    cases hk : s.key with
    | none => rfl
    | some key => exact h.key_optional key hk
  rw [Lexer.dropKey?, hnone]
  rfl

/-- A column inside the innermost block collection closes none. -/
theorem closeBlocks_of_le {column : ℤ} (hkeys : s.outerKeys = []) (h : s.indent ≤ column) :
    s.closeBlocks column = s := by
  have hflow : s.inFlow = false := by
    rw [inFlow, hkeys]
    rfl
  rw [closeBlocks, hflow]
  cases s.outerIndents with
  | nil => rfl
  | cons i outer =>
    rw [closeBlocks.go, if_neg (not_lt.mpr h)]
    rfl

theorem InBlock.closeBlocks {column : ℤ} (h : InBlock s cs indent outer) (hc : indent ≤ column) :
    s.closeBlocks column = s := closeBlocks_of_le h.outerKeys_eq (h.indent_eq.trans_le hc)

theorem advance?_eq (h : InBlock s cs indent outer) {keyAllowed : Bool} {cs' : List Char} {m : Mark}
    (hskip : skipToToken false s.keyAllowed false cs s.mark = ⟨keyAllowed, ⟨cs', m⟩⟩) :
    s.advance? = some ({ s with cursor := ⟨cs', m⟩, keyAllowed }.closeBlocks m.column) := by
  rw [advance?, h.not_inFlow, h.rest_eq, hskip]
  simp only
  rw [(h.move cs' m keyAllowed).checkKeys?]
  rfl

/-- Where a token starts there is nothing to skip, if nothing ends there either. -/
theorem advance?_self (hrest : s.cursor.rest = c :: cs) (hc : StartsToken c)
    (hcheck : s.checkKeys? = some s) (hclose : s.closeBlocks s.mark.column = s) :
    s.advance? = some s := by
  have hskip := skipToToken_start hc s.inFlow s.keyAllowed cs s.mark
  have heq : { s with cursor := ⟨c :: cs, s.mark⟩, keyAllowed := s.keyAllowed } = s := by
    rw [← hrest]
    rfl
  rw [advance?, hrest, hskip]
  simp only
  rw [heq, hcheck]
  exact congrArg some hclose

theorem next?_eq (hrest : s.cursor.rest = c :: cs) (hc : StartsToken c)
    (hcheck : s.checkKeys? = some s) (hclose : s.closeBlocks s.mark.column = s)
    (htoken : s.token? c cs = some t) : s.next? = t.checkKeys? := by
  rw [next?, advance?_self hrest hc hcheck hclose, Option.bind_eq_bind, Option.bind_some, hrest]
  change (s.token? c cs).bind _ = _
  rw [htoken]
  rfl

/-- Where a token starts inside the innermost collection, there is nothing to skip. -/
theorem advance?_start (h : InBlock s (c :: cs) indent outer) (hc : StartsToken c)
    (hcolumn : indent ≤ s.mark.column) : s.advance? = some s :=
  advance?_self h.rest_eq hc h.checkKeys? (h.closeBlocks hcolumn)

theorem next?_start (h : InBlock s (c :: cs) indent outer) (hc : StartsToken c)
    (hcolumn : indent ≤ s.mark.column) (htoken : s.token? c cs = some t) :
    s.next? = t.checkKeys? :=
  next?_eq h.rest_eq hc h.checkKeys? (h.closeBlocks hcolumn) htoken

/-- The next line of a block starts where its indentation ends. -/
theorem emits_newline (h : InBlock s (newline n ++ cs) indent outer) (hcs : Starts cs)
    (hn : indent ≤ n) : ∃ t, Emits s [] t ∧ InBlock t cs indent outer ∧ t.mark.column = n ∧
      t.keyAllowed = true := by
  obtain ⟨c, cs, rfl, hc⟩ := hcs
  let t : Lexer := { s with cursor := ⟨c :: cs, s.mark.lineAt n⟩, keyAllowed := true }
  have ht : InBlock t (c :: cs) indent outer := h.move _ _ _
  have hskip : skipToToken false s.keyAllowed false (newline n ++ c :: cs) s.mark =
      ⟨true, ⟨c :: cs, s.mark.lineAt n⟩⟩ := by
    rw [skipToToken_newline, skipToToken_start hc]
  refine ⟨t, emits_of_advance? ?_ rfl, ht, rfl, rfl⟩
  rw [advance?_eq h hskip, advance?_start ht hc hn]
  exact congrArg some (ht.closeBlocks hn)

theorem emits_blank (h : InBlock s (' ' :: cs) indent outer) (hcs : Starts cs)
    (hcolumn : indent ≤ s.mark.column) : ∃ t, Emits s [] t ∧ InBlock t cs indent outer ∧
      t.mark.column = s.mark.column + 1 ∧ t.keyAllowed = s.keyAllowed := by
  obtain ⟨c, cs, rfl, hc⟩ := hcs
  let m : Mark := ⟨s.mark.index + 1, s.mark.line, s.mark.column + 1⟩
  let t : Lexer := { s with cursor := ⟨c :: cs, m⟩ }
  have ht : InBlock t (c :: cs) indent outer := h.move _ _ _
  have hskip : skipToToken false s.keyAllowed false (' ' :: c :: cs) s.mark =
      ⟨s.keyAllowed, ⟨c :: cs, m⟩⟩ := by
    have hspace := skipToToken_spaces 1 s.keyAllowed (c :: cs) s.mark
    rw [skipToToken_start hc] at hspace
    exact hspace
  have hinside : indent ≤ (m.column : ℤ) := hcolumn.trans (by simp [m])
  refine ⟨t, emits_of_advance? ?_ rfl, ht, rfl, rfl⟩
  rw [advance?_eq h hskip, advance?_start ht hc hinside]
  exact congrArg some (ht.closeBlocks hinside)

/-- A block collection ends with what follows it. -/
theorem emits_blockEnd {inner : ℤ} (h : InBlock s rest inner (indent :: outer))
    (hrest : Follows indent rest) (hindent : indent < inner) (hinner : 0 < inner) :
    ∃ t, Emits s [.blockEnd] t ∧ InBlock t rest indent outer := by
  obtain ⟨cs, m, hskip, -, -, hcolumn⟩ := hrest.exists_place s.mark
  let t : Lexer := { s with
    tokens := ⟨.blockEnd, m⟩ :: s.tokens
    count := s.count + 1
    indent := indent
    outerIndents := outer }
  have ht : InBlock t rest indent outer := ⟨h.rest_eq, rfl, rfl, h.outerKeys_eq, h.key_optional⟩
  have hclose : ({ s with cursor := ⟨cs, m⟩, keyAllowed := true } : Lexer).closeBlocks m.column =
      ({ t with cursor := ⟨cs, m⟩, keyAllowed := true } : Lexer).closeBlocks m.column := by
    have hflow : ({ s with cursor := ⟨cs, m⟩, keyAllowed := true } : Lexer).inFlow = false :=
      h.not_inFlow
    have hflow' : ({ t with cursor := ⟨cs, m⟩, keyAllowed := true } : Lexer).inFlow = false :=
      ht.not_inFlow
    have hout : (m.column : ℤ) < s.indent := by
      rw [h.indent_eq]
      omega
    rw [Lexer.closeBlocks, hflow, Lexer.closeBlocks, hflow']
    simp only [h.outerIndents_eq, closeBlocks.go, if_pos hout, t]
    simp [push, insert, mark]
  refine ⟨t, ⟨fun ts => reads_of_advance? ?_, rfl⟩, ht⟩
  rw [advance?_eq h (hskip s.keyAllowed), advance?_eq ht (hskip t.keyAllowed), hclose]

/-- A word is read as a plain scalar. -/
theorem token?_word (hw : IsWord (c :: word)) (rest : List Char) (s : Lexer)
    (hflow : s.inFlow = false) : s.token? c (word ++ rest) = s.plain? := by
  have hc := hw.chars c List.mem_cons_self
  have hne := hc.ne_indicator
  simp only [indicators, List.forall_mem_cons] at hne
  have hmarker := not_atDocumentMarker hw rest
  have hnext : c = '-' → ∃ d w, word = d :: w ∧ StartsToken d := by
    rintro rfl
    obtain ⟨x, hx, halnum⟩ := hw.alphanum
    rcases List.mem_cons.mp hx with rfl | hx
    · exact absurd halnum (by decide)
    · obtain ⟨d, w, rfl⟩ := List.exists_cons_of_ne_nil (List.ne_nil_of_mem hx)
      exact ⟨d, w, rfl, (hw.chars d (by simp)).startsToken⟩
  have hdash : ¬ (c = '-' ∧ atSpace (word ++ rest) = true) := by
    rintro ⟨heq, hspace⟩
    obtain ⟨d, w, rfl, hd⟩ := hnext heq
    rw [List.cons_append, atSpace, hd.not_space] at hspace
    cases hspace
  have hstart : startsPlain false c (word ++ rest) = true := by
    rw [startsPlain]
    split
    · next heq =>
      obtain ⟨d, w, rfl, hd⟩ := hnext heq
      simp [hd.not_blank]
    · simp [hc.startsToken.not_space, isFlowIndicator, hne]
  rw [List.cons_append] at hmarker
  rw [token?, hmarker, hflow, hstart]
  simp [hne, hdash]

/-- The key that is possible once a scalar has started here. -/
def notedKey (s : Lexer) : Option PossibleKey :=
  if s.keyAllowed then some ⟨s.mark, s.count, s.indent = s.mark.column⟩ else s.key

theorem InBlock.noteKey? (h : InBlock s cs indent outer) :
    s.noteKey? = some { s with key := s.notedKey } := by
  by_cases hallowed : s.keyAllowed = true
  · have hflow : ({ s with key := none } : Lexer).inFlow = false := h.not_inFlow
    rw [Lexer.noteKey?, if_pos hallowed, h.dropKey?, notedKey, if_pos hallowed, Option.bind_eq_bind,
      Option.bind_some, hflow]
    rfl
  · rw [Lexer.noteKey?, if_neg hallowed, notedKey, if_neg hallowed]

/-- The state after a plain scalar that is read here. -/
def readPlain (s : Lexer) (reading : Plain.Reading) : Lexer := { s with
  tokens := ⟨.scalar .plain (String.ofList reading.text), s.mark⟩ :: s.tokens
  count := s.count + 1
  cursor := reading.after
  keyAllowed := reading.broken
  key := s.notedKey }

theorem next?_word {reading : Plain.Reading} (h : InBlock s (word ++ rest) indent outer)
    (hw : IsWord word) (hcolumn : indent ≤ s.mark.column)
    (hread : Plain.read? false (indent + 1).toNat word.reverse .empty rest (s.mark.past word) =
      some reading) : s.next? = (s.readPlain reading).checkKeys? := by
  have hreading : Plain.read? false (s.indent + 1).toNat [] .empty s.cursor.rest s.mark =
      some reading := by
    rw [h.indent_eq, h.rest_eq, Plain.read?_word hw.chars, List.append_nil, hread]
  have hplain : s.plain? = some (s.readPlain reading) := by
    have hflow : ({ s with key := s.notedKey } : Lexer).inFlow = false := h.not_inFlow
    rw [plain?, h.noteKey?, Option.bind_eq_bind, Option.bind_some, hflow]
    change (Plain.read? false (s.indent + 1).toNat [] .empty s.cursor.rest s.mark).bind _ = _
    rw [hreading]
    simp [push, insert, readPlain, mark]
  obtain ⟨x, hx, -⟩ := hw.alphanum
  obtain ⟨c, w, rfl⟩ := List.exists_cons_of_ne_nil (List.ne_nil_of_mem hx)
  have hc := (hw.chars c List.mem_cons_self).startsToken
  exact next?_start h hc hcolumn ((token?_word hw rest s h.not_inFlow).trans hplain)

theorem InBlock.notedKey_optional (h : InBlock s cs indent outer)
    (hcolumn : indent < s.mark.column) : ∀ k ∈ s.notedKey, k.required = false := by
  intro k hk
  rw [notedKey] at hk
  split at hk
  · obtain rfl := Option.mem_some_iff.mp hk
    rw [h.indent_eq]
    exact decide_eq_false hcolumn.ne
  · exact h.key_optional k hk

/-- A word that ends its line is a value. -/
theorem emits_word (h : InBlock s (word ++ rest) indent outer) (hw : IsWord word)
    (hrest : Follows indent rest) (hcolumn : indent < s.mark.column) :
    ∃ t, Emits s [.scalar .plain (String.ofList word)] t ∧ InBlock t rest indent outer := by
  obtain ⟨cs, m, hskip, hstay, hread, -⟩ := hrest.exists_place (s.mark.past word)
  have hread := hread word.reverse
  rw [List.reverse_reverse] at hread
  have hoptional := h.notedKey_optional hcolumn
  let read := s.readPlain ⟨word, true, ⟨cs, m⟩⟩
  let t : Lexer := { read with cursor := ⟨rest, s.mark.past word⟩, keyAllowed := false }
  have hin : InBlock read cs indent outer :=
    ⟨rfl, h.indent_eq, h.outerIndents_eq, h.outerKeys_eq, hoptional⟩
  have ht : InBlock t rest indent outer := hin.move _ _ _
  have hnext : s.next? = some read := (next?_word h hw hcolumn.le hread).trans hin.checkKeys?
  have hplace : read.advance? = t.advance? := by
    rw [advance?_eq hin (hstay true), advance?_eq ht (hskip false)]
  exact ⟨t, ⟨fun ts hts => .next hnext (reads_of_advance? hplace hts), rfl⟩, ht⟩

/-- The token that opens a block collection at a column, if it lies further in. -/
def opening (indent : ℤ) (column : ℕ) (kind : Token.Kind) : List Token.Kind :=
  if indent < column then [kind] else []

/-- The block collections around the one at a column. -/
def opened (indent : ℤ) (column : ℕ) (outer : List ℤ) : List ℤ :=
  if indent < column then indent :: outer else outer

theorem not_isStale (hword : ∀ c ∈ word, IsWordChar c) (hlength : word.length ≤ 1024) (m : Mark)
    (position : ℕ) (required : Bool) : isStale (m.past word) ⟨m, position, required⟩ = false := by
  have hindex := Mark.index_past hword m
  have hline := Mark.line_past m word
  simp [isStale, hindex, hline, hlength]

theorem insertIdx_append {α : Type} (xs ys : List α) (x : α) :
    (xs ++ ys).insertIdx xs.length x = xs ++ x :: ys := by
  induction xs with
  | nil => rfl
  | cons y xs ih => exact congrArg (y :: ·) ih

theorem reverse_opening (indent : ℤ) (column : ℕ) (kind : Token.Kind) :
    (opening indent column kind).reverse = opening indent column kind := by
  rw [opening]
  split <;> rfl

/-- Opening a block collection in front of the newest tokens. -/
theorem exists_openBlock (kind : Token.Kind) (m : Mark) {newer older : List Token} {position : ℕ}
    (hkeys : s.outerKeys = []) (hindent : s.indent ≤ m.column)
    (hcount : s.count = position + newer.length) (htokens : s.tokens = newer ++ older) :
    ∃ tokens count, s.openBlock kind m position = { s with
        tokens
        count
        indent := m.column
        outerIndents := opened s.indent m.column s.outerIndents } ∧
      tokens.map Token.kind = newer.map Token.kind ++ (opening s.indent m.column kind ++
        older.map Token.kind) := by
  have hflow : s.inFlow = false := by
    rw [inFlow, hkeys]
    rfl
  by_cases hlt : s.indent < m.column
  · have hplace : s.tokens.insertIdx (s.count - position) ⟨kind, m⟩ = newer ++ ⟨kind, m⟩ :: older := by
      rw [htokens, hcount, Nat.add_sub_cancel_left, insertIdx_append]
    refine ⟨newer ++ ⟨kind, m⟩ :: older, s.count + 1, ?_, ?_⟩
    · rw [openBlock, hflow, opened, if_pos hlt]
      simp [hlt, insert, hplace]
    · simp [opening, hlt]
  · have heq : s.indent = m.column := le_antisymm hindent (not_lt.mp hlt)
    refine ⟨s.tokens, s.count, ?_, ?_⟩
    · rw [openBlock, hflow, opened, if_neg hlt]
      simp [← heq]
    · rw [opening, if_neg hlt, htokens]
      simp

/-- A colon after a possible key puts the key and its mapping in front of the scalar. -/
theorem exists_value? {key : PossibleKey} {scalar : Token} {older : List Token}
    (hkeys : s.outerKeys = []) (hkey : s.currentKey = some key) (htokens : s.tokens = scalar :: older)
    (hcount : s.count = key.position + 1) (hindent : s.indent ≤ key.mark.column)
    (hrest : s.cursor.rest = ':' :: cs) : ∃ t, s.value? = some t ∧
      InBlock t cs key.mark.column (opened s.indent key.mark.column s.outerIndents) ∧
      t.tokens.map Token.kind = .value :: scalar.kind :: .key ::
        (opening s.indent key.mark.column .blockMappingStart ++ older.map Token.kind) ∧
      t.keyAllowed = false ∧ t.mark.column = s.mark.column + 1 := by
  have hinsert : s.insert key.position .key key.mark = { s with
      tokens := scalar :: ⟨.key, key.mark⟩ :: older
      count := s.count + 1 } := by
    rw [insert, htokens, hcount, Nat.add_sub_cancel_left]
    rfl
  have htwo : (s.insert key.position .key key.mark).tokens = [scalar, ⟨.key, key.mark⟩] ++ older :=
    congrArg Lexer.tokens hinsert
  obtain ⟨tokens, count, hopen, hkinds⟩ := exists_openBlock (s := s.insert key.position .key key.mark)
    .blockMappingStart key.mark hkeys hindent (congrArg (· + 1) hcount) htwo
  have hvalue : s.value? = some { s with
      tokens := ⟨.value, s.mark⟩ :: tokens
      count := count + 1
      cursor := s.cursor.skip 1
      indent := key.mark.column
      outerIndents := opened s.indent key.mark.column s.outerIndents
      keyAllowed := false
      key := none } := by
    rw [value?, hkey]
    simp only
    rw [hopen]
    simp [take, push, insert, mark]
  refine ⟨_, hvalue, ⟨?_, rfl, rfl, hkeys, by rintro k ⟨⟩⟩, ?_, rfl, ?_⟩
  · simp [Cursor.skip, hrest]
  · simp only [List.map_cons, hkinds]
    rfl
  · simp [Cursor.skip, hrest, mark, Mark.after]

/-- A word is noted as a key, which its colon does not come too late for. -/
theorem currentKey_readPlain (rest : List Char) (hw : IsWord word) (hlength : word.length ≤ 1024)
    (hallowed : s.keyAllowed = true) (hkeys : s.outerKeys = []) :
    let read := s.readPlain ⟨word, false, ⟨rest, s.mark.past word⟩⟩
    read.currentKey = some ⟨s.mark, s.count, s.indent = s.mark.column⟩ ∧
      read.checkKeys? = some read := by
  intro read
  have hkey : read.key = some ⟨s.mark, s.count, s.indent = s.mark.column⟩ := by
    change s.notedKey = _
    rw [notedKey, if_pos hallowed]
  have hstale : isStale read.mark ⟨s.mark, s.count, s.indent = s.mark.column⟩ = false :=
    not_isStale hw.chars hlength s.mark _ _
  have hnone : read.lacksKey = false := by
    rw [lacksKey, hkey, show read.outerKeys = [] from hkeys]
    simp [hstale]
  refine ⟨?_, ?_⟩
  · rw [currentKey, hkey]
    simp [hstale]
  · rw [checkKeys?, hnone]
    rfl

/-- A word before a colon is a key, which may open a block mapping. -/
theorem emits_key (h : InBlock s (word ++ ':' :: cs) indent outer) (hw : IsWord word)
    (hlength : word.length ≤ 1024) (hcs : atSpace cs = true) (hallowed : s.keyAllowed = true)
    (hcolumn : indent ≤ s.mark.column) : ∃ t,
      Emits s (opening indent s.mark.column .blockMappingStart ++
        [.key, .scalar .plain (String.ofList word), .value]) t ∧
      InBlock t cs s.mark.column (opened indent s.mark.column outer) ∧ t.keyAllowed = false ∧
      s.mark.column < t.mark.column := by
  have hcolon := Plain.read?_colon (indent + 1).toNat hcs word.reverse (s.mark.past word)
  rw [List.reverse_reverse] at hcolon
  let read := s.readPlain ⟨word, false, ⟨':' :: cs, s.mark.past word⟩⟩
  have hrest : read.cursor.rest = ':' :: cs := rfl
  have hindent : read.indent = indent := h.indent_eq
  have hpast : read.mark.column = s.mark.column + word.length := Mark.column_past _ _
  obtain ⟨hcurrent, hcheck⟩ :=
    currentKey_readPlain (':' :: cs) hw hlength hallowed h.outerKeys_eq
  have hclose : read.closeBlocks read.mark.column = read := by
    refine closeBlocks_of_le h.outerKeys_eq ?_
    rw [hindent, hpast]
    omega
  obtain ⟨t, hvalue, ht, hkinds, hfresh, hafter⟩ := exists_value? (s := read) h.outerKeys_eq
    hcurrent rfl rfl (hindent.trans_le hcolumn) hrest
  have htoken : read.token? ':' cs = read.value? := by
    rw [token?]
    simp [hcs, atDocumentMarker]
  have hfirst : s.next? = some read := (next?_word h hw hcolumn hcolon).trans hcheck
  have hnext : read.next? = some t :=
    (next?_eq hrest ⟨rfl, by decide, by decide⟩ hcheck hclose (htoken.trans hvalue)).trans
      ht.checkKeys?
  rw [hindent, show read.outerIndents = outer from h.outerIndents_eq] at ht
  refine ⟨t, ⟨fun ts hts => .next hfirst (.next hnext hts), ?_⟩, ht, hfresh, ?_⟩
  · rw [hkinds, List.reverse_append, reverse_opening, hindent]
    rfl
  · rw [hafter, hpast]
    omega

/-- A dash before a space starts an item, which may open a block sequence. -/
theorem emits_dash (h : InBlock s ('-' :: ' ' :: cs) indent outer) (hallowed : s.keyAllowed = true)
    (hcolumn : indent ≤ s.mark.column) : ∃ t,
      Emits s (opening indent s.mark.column .blockSequenceStart ++ [.blockEntry]) t ∧
      InBlock t (' ' :: cs) s.mark.column (opened indent s.mark.column outer) ∧
      t.keyAllowed = true ∧ t.mark.column = s.mark.column + 1 := by
  have hcount : s.count = s.count + ([] : List Token).length := rfl
  obtain ⟨tokens, count, hopen, hkinds⟩ := exists_openBlock .blockSequenceStart s.mark h.outerKeys_eq
    (h.indent_eq.trans_le hcolumn) hcount (List.nil_append _).symm
  rw [h.indent_eq, h.outerIndents_eq] at hopen
  rw [h.indent_eq] at hkinds
  let inner : Lexer := { s with
    tokens
    count
    indent := s.mark.column
    outerIndents := opened indent s.mark.column outer }
  let t : Lexer := { inner with
    tokens := ⟨.blockEntry, s.mark⟩ :: tokens
    count := count + 1
    cursor := s.cursor.skip 1
    keyAllowed := true
    key := none }
  have hinner : InBlock inner ('-' :: ' ' :: cs) s.mark.column (opened indent s.mark.column outer) :=
    ⟨h.rest_eq, rfl, rfl, h.outerKeys_eq, h.key_optional⟩
  have ht : InBlock t (' ' :: cs) s.mark.column (opened indent s.mark.column outer) := by
    refine ⟨?_, rfl, rfl, h.outerKeys_eq, by rintro k ⟨⟩⟩
    change s.cursor.rest.drop 1 = _
    rw [h.rest_eq]
    rfl
  have hitem : s.blockItem? = some t := by
    rw [blockItem?, h.not_inFlow, hallowed, hopen]
    change inner.dropKey?.bind _ = _
    rw [hinner.dropKey?]
    simp [take, push, insert, mark, inner, t]
  have htoken : s.token? '-' (' ' :: cs) = s.blockItem? := by
    rw [token?]
    simp [atSpace, isSpace, isBlank, atDocumentMarker]
  have hnext : s.next? = some t :=
    (next?_start h ⟨rfl, by decide, by decide⟩ hcolumn (htoken.trans hitem)).trans ht.checkKeys?
  refine ⟨t, ⟨fun ts hts => .next hnext hts, ?_⟩, ht, rfl, ?_⟩
  · rw [List.reverse_append, reverse_opening, List.append_assoc]
    exact congrArg (Token.Kind.blockEntry :: ·) hkinds
  · change ((s.cursor.rest.take 1).foldl Mark.after s.mark).column = _
    rw [h.rest_eq]
    rfl

/-- An empty flow collection is a value. -/
theorem emits_flow {first last : Char} {start finish : Token.Kind}
    (h : InBlock s (first :: last :: rest) indent outer) (hfirst : StartsToken first)
    (hlast : StartsToken last) (hcolumn : indent < s.mark.column)
    (hstart : ∀ (s : Lexer) cs, s.token? first (last :: cs) = s.openFlow? start)
    (hfinish : ∀ (s : Lexer) cs, s.token? last cs = s.closeFlow? finish) :
    ∃ t, Emits s [start, finish] t ∧ InBlock t rest indent outer := by
  have hoptional := h.notedKey_optional hcolumn
  let inside : Lexer := { s with
    tokens := ⟨start, s.mark⟩ :: s.tokens
    count := s.count + 1
    cursor := ⟨last :: rest, s.mark.after first⟩
    keyAllowed := true
    key := none
    outerKeys := [s.notedKey] }
  let t : Lexer := { inside with
    tokens := ⟨finish, s.mark.after first⟩ :: inside.tokens
    count := s.count + 2
    cursor := ⟨rest, (s.mark.after first).after last⟩
    keyAllowed := false
    key := s.notedKey
    outerKeys := [] }
  have ht : InBlock t rest indent outer :=
    ⟨rfl, h.indent_eq, h.outerIndents_eq, rfl, hoptional⟩
  have hcheck : inside.checkKeys? = some inside := by
    have hnone : inside.lacksKey = false := by
      rw [lacksKey]
      cases hk : s.notedKey with
      | none => simp [inside, hk]
      | some key => simp [inside, hk, hoptional key hk]
    rw [checkKeys?, hnone]
    rfl
  have hskip : s.cursor.skip 1 = ⟨last :: rest, s.mark.after first⟩ := by
    rw [Cursor.skip, h.rest_eq]
    rfl
  have hopen : s.openFlow? start = some inside := by
    rw [openFlow?, h.noteKey?, Option.bind_eq_bind, Option.bind_some]
    simp [take, push, insert, mark, inside, hskip, h.outerKeys_eq]
  have hclose : inside.closeFlow? finish = some t := by
    simp [closeFlow?, Lexer.dropKey?, take, push, insert, mark, inside, t, Cursor.skip]
  have hfirst' : s.next? = some inside :=
    (next?_start h hfirst hcolumn.le ((hstart s rest).trans hopen)).trans hcheck
  have hlast' : inside.next? = some t :=
    (next?_eq rfl hlast hcheck rfl ((hfinish inside rest).trans hclose)).trans ht.checkKeys?
  exact ⟨t, ⟨fun ts hts => .next hfirst' (.next hlast' hts), rfl⟩, ht⟩

theorem token?_bracket (s : Lexer) (cs : List Char) :
    s.token? '[' cs = s.openFlow? .flowSequenceStart ∧
      s.token? ']' cs = s.closeFlow? .flowSequenceEnd := by
  constructor <;> rw [token?] <;> simp [atDocumentMarker]

theorem token?_brace (s : Lexer) (cs : List Char) :
    s.token? '\x7b' cs = s.openFlow? .flowMappingStart ∧
      s.token? '\x7d' cs = s.closeFlow? .flowMappingEnd := by
  constructor <;> rw [token?] <;> simp [atDocumentMarker]

/-- At the end of a text its outermost block collection is closed. -/
theorem exists_endBlocks? (h : InBlock s [] indent outer)
    (hindent : indent = -1 ∧ outer = [] ∨ indent = 0 ∧ outer = [-1]) :
    ∃ t, s.endBlocks? = some t ∧ InBlock t [] (-1) [] ∧ t.tokens.map Token.kind =
      (if indent = 0 then [.blockEnd] else []) ++ s.tokens.map Token.kind := by
  rcases hindent with ⟨rfl, rfl⟩ | ⟨rfl, rfl⟩
  · refine ⟨{ s with key := none, keyAllowed := false }, ?_, ?_, rfl⟩
    · rw [endBlocks?, h.closeBlocks le_rfl, h.dropKey?]
      rfl
    · exact ⟨h.rest_eq, h.indent_eq, h.outerIndents_eq, h.outerKeys_eq, by rintro k ⟨⟩⟩
  · let closed : Lexer := { s with
      tokens := ⟨.blockEnd, s.mark⟩ :: s.tokens
      count := s.count + 1
      indent := -1
      outerIndents := [] }
    have hclosed : InBlock closed [] (-1) [] :=
      ⟨h.rest_eq, rfl, rfl, h.outerKeys_eq, h.key_optional⟩
    have hclose : s.closeBlocks (-1) = closed := by
      have hout : (-1 : ℤ) < s.indent := by
        rw [h.indent_eq]
        decide
      rw [Lexer.closeBlocks, h.not_inFlow, h.outerIndents_eq]
      simp only [closeBlocks.go, if_pos hout]
      simp [closed, push, insert]
    refine ⟨{ closed with key := none, keyAllowed := false }, ?_, ?_, rfl⟩
    · rw [endBlocks?, hclose, hclosed.dropKey?]
      rfl
    · exact ⟨h.rest_eq, rfl, rfl, h.outerKeys_eq, by rintro k ⟨⟩⟩

/-- The end of the text is read after the last line break. -/
theorem exists_reads (h : InBlock s ['\n'] indent outer)
    (hindent : indent = -1 ∧ outer = [] ∨ indent = 0 ∧ outer = [-1]) : ∃ ts, Reads s ts ∧
      ts.map Token.kind = (s.tokens.map Token.kind).reverse ++
        (if indent = 0 then [.blockEnd] else []) ++ [.streamEnd] := by
  let last : Lexer := { s with cursor := ⟨[], s.mark.lineAt 0⟩, keyAllowed := true }
  have hlast : InBlock last [] indent outer := h.move _ _ _
  have hadvance : s.advance? = some last := by
    rw [advance?_eq h (skipToToken_newline 0 s.keyAllowed [] s.mark)]
    refine congrArg some (hlast.closeBlocks ?_)
    change indent ≤ 0
    omega
  have hnext : s.next? = none := by
    rw [next?, hadvance]
    rfl
  obtain ⟨ended, hend, hin, hkinds⟩ := exists_endBlocks? hlast hindent
  have hfinish : s.finish? = some ((⟨.streamEnd, ended.mark⟩ :: ended.tokens).reverse) := by
    rw [finish?, hadvance]
    change (Lexer.endBlocks? last).bind _ = _
    rw [hend, Option.bind_some, hin.checkKeys?]
    simp [push, insert]
  refine ⟨_, .finish hnext hfinish, ?_⟩
  rw [List.map_reverse, List.map_cons, List.reverse_cons, hkinds, List.reverse_append]
  by_cases hzero : indent = 0 <;> simp [hzero, last]

end Lexer
end Strapdown.Yaml
