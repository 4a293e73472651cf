import Strapdown.Yaml.Token.Lexer

/-!
Every token takes at least one character of the text. Main statement: `left_next?_lt`, by which the
tokens of a text come to an end.
-/

namespace Strapdown.Yaml.Lexer

/-! Keys and indentation leave the place in the text as it is. -/

theorem cursor_checkKeys? {s t : Lexer} (h : s.checkKeys? = some t) : t.cursor = s.cursor := by
  unfold checkKeys? at h
  split at h
  · cases h
  · cases h
    rfl

theorem cursor_dropKey? {s t : Lexer} (h : s.dropKey? = some t) : t.cursor = s.cursor := by
  unfold dropKey? at h
  split at h
  · cases h
  · cases h
    rfl

theorem cursor_noteKey? {s t : Lexer} (h : s.noteKey? = some t) : t.cursor = s.cursor := by
  unfold noteKey? at h
  split at h
  · simp only [Option.bind_eq_bind, Option.bind_eq_some_iff, Option.pure_def,
      Option.some.injEq] at h
    obtain ⟨u, hu, rfl⟩ := h
    have hcursor := cursor_dropKey? hu
    exact hcursor
  · cases h
    rfl

theorem inFlow_noteKey? {s t : Lexer} (h : s.noteKey? = some t) : t.inFlow = s.inFlow := by
  unfold noteKey? dropKey? at h
  split at h
  · split at h
    · cases h
    · cases h
      rfl
  · cases h
    rfl

theorem cursor_openBlock (s : Lexer) (kind : Token.Kind) (mark : Mark) (position : Nat) :
    (s.openBlock kind mark position).cursor = s.cursor := by
  unfold openBlock
  split <;> rfl

theorem cursor_closeBlocks_go (s : Lexer) (column : Int) (outer : List Int) :
    (closeBlocks.go column s outer).cursor = s.cursor := by
  induction outer generalizing s with
  | nil => rfl
  | cons _ _ ih =>
    unfold closeBlocks.go
    split
    · exact ih _
    · rfl

theorem cursor_closeBlocks (s : Lexer) (column : Int) :
    (s.closeBlocks column).cursor = s.cursor := by
  unfold closeBlocks
  split
  · rfl
  · exact cursor_closeBlocks_go s column s.outerIndents

theorem cursor_endBlocks? {s t : Lexer} (h : s.endBlocks? = some t) : t.cursor = s.cursor := by
  simp only [endBlocks?, Option.bind_eq_bind, Option.bind_eq_some_iff, Option.pure_def,
    Option.some.injEq] at h
  obtain ⟨u, hu, rfl⟩ := h
  exact (cursor_dropKey? hu).trans (cursor_closeBlocks s (-1))

/-! A token moves over characters of the text. -/

theorem left_skip_lt {c d : Cursor} {width : Nat} (hc : 0 < c.left) (hwidth : 0 < width)
    (hd : d = c) : (d.skip width).left < c.left := by
  rw [hd, Cursor.left_skip]
  omega

theorem left_directive?_lt {s t : Lexer} (hs : 0 < s.cursor.left) (h : s.directive? = some t) :
    t.cursor.left < s.cursor.left := by
  simp only [directive?, Option.bind_eq_bind, Option.bind_eq_some_iff, Option.pure_def,
    Option.some.injEq] at h
  obtain ⟨u, hu, read, hread, rfl⟩ := h
  have hle : read.2.left ≤ (u.cursor.skip 1).left := Property.left_directive?_le hread
  rw [cursor_endBlocks? hu, Cursor.left_skip] at hle
  exact Nat.lt_of_le_of_lt hle (Nat.sub_lt hs Nat.one_pos)

theorem left_documentMarker?_lt {s t : Lexer} {kind : Token.Kind} (hs : 0 < s.cursor.left)
    (h : s.documentMarker? kind = some t) : t.cursor.left < s.cursor.left := by
  simp only [documentMarker?, Option.bind_eq_bind, Option.bind_eq_some_iff, Option.pure_def,
    Option.some.injEq] at h
  obtain ⟨u, hu, rfl⟩ := h
  exact left_skip_lt hs (by omega) (cursor_endBlocks? hu)

theorem left_openFlow?_lt {s t : Lexer} {kind : Token.Kind} (hs : 0 < s.cursor.left)
    (h : s.openFlow? kind = some t) : t.cursor.left < s.cursor.left := by
  simp only [openFlow?, Option.bind_eq_bind, Option.bind_eq_some_iff, Option.pure_def,
    Option.some.injEq] at h
  obtain ⟨u, hu, rfl⟩ := h
  exact left_skip_lt hs Nat.one_pos (cursor_noteKey? hu)

theorem left_closeFlow?_lt {s t : Lexer} {kind : Token.Kind} (hs : 0 < s.cursor.left)
    (h : s.closeFlow? kind = some t) : t.cursor.left < s.cursor.left := by
  simp only [closeFlow?, Option.bind_eq_bind, Option.bind_eq_some_iff, Option.pure_def] at h
  obtain ⟨u, hu, h⟩ := h
  split at h
  all_goals
    cases h
    exact left_skip_lt hs Nat.one_pos (cursor_dropKey? hu)

theorem left_flowComma?_lt {s t : Lexer} (hs : 0 < s.cursor.left)
    (h : s.flowComma? = some t) : t.cursor.left < s.cursor.left := by
  simp only [flowComma?, Option.bind_eq_bind, Option.bind_eq_some_iff, Option.pure_def,
    Option.some.injEq] at h
  obtain ⟨u, hu, rfl⟩ := h
  exact left_skip_lt hs Nat.one_pos (cursor_dropKey? hu)

theorem left_blockItem?_lt {s t : Lexer} (hs : 0 < s.cursor.left)
    (h : s.blockItem? = some t) : t.cursor.left < s.cursor.left := by
  unfold blockItem? at h
  split at h
  · cases h
  · simp only [Option.bind_eq_bind, Option.bind_eq_some_iff, Option.pure_def,
      Option.some.injEq] at h
    obtain ⟨u, hu, rfl⟩ := h
    exact left_skip_lt hs Nat.one_pos ((cursor_dropKey? hu).trans (cursor_openBlock s _ _ _))

theorem left_explicitKey?_lt {s t : Lexer} (hs : 0 < s.cursor.left)
    (h : s.explicitKey? = some t) : t.cursor.left < s.cursor.left := by
  unfold explicitKey? at h
  split at h
  · cases h
  · simp only [Option.bind_eq_bind, Option.bind_eq_some_iff, Option.pure_def,
      Option.some.injEq] at h
    obtain ⟨u, hu, rfl⟩ := h
    exact left_skip_lt hs Nat.one_pos ((cursor_dropKey? hu).trans (cursor_openBlock s _ _ _))

theorem left_value?_lt {s t : Lexer} (hs : 0 < s.cursor.left)
    (h : s.value? = some t) : t.cursor.left < s.cursor.left := by
  unfold value? at h
  split at h
  · cases h
    exact left_skip_lt hs Nat.one_pos (cursor_openBlock _ _ _ _)
  · split at h
    · cases h
    · cases h
      exact left_skip_lt hs Nat.one_pos (cursor_openBlock s _ _ _)

theorem left_keyPart?_lt {s t : Lexer} {read? : Cursor → Option (Token.Kind × Cursor)}
    (hread : ∀ read, read? s.cursor = some read → read.2.left < s.cursor.left)
    (h : s.keyPart? read? = some t) : t.cursor.left < s.cursor.left := by
  simp only [keyPart?, Option.bind_eq_bind, Option.bind_eq_some_iff, Option.pure_def,
    Option.some.injEq] at h
  obtain ⟨u, hu, read, hu', rfl⟩ := h
  rw [cursor_noteKey? hu] at hu'
  exact hread read hu'

theorem left_name?_lt {s t : Lexer} {kind : String → Token.Kind} (hs : 0 < s.cursor.left)
    (h : s.name? kind = some t) : t.cursor.left < s.cursor.left := by
  refine left_keyPart?_lt (fun read hread => ?_) h
  simp only [Option.bind_eq_bind, Option.bind_eq_some_iff, Option.pure_def,
    Option.some.injEq] at hread
  obtain ⟨name, hname, rfl⟩ := hread
  have hle : name.2.left ≤ (s.cursor.skip 1).left := Property.left_name?_le hname
  rw [Cursor.left_skip] at hle
  exact Nat.lt_of_le_of_lt hle (Nat.sub_lt hs Nat.one_pos)

theorem left_tag?_lt {s t : Lexer} (hs : 0 < s.cursor.left) (h : s.tag? = some t) :
    t.cursor.left < s.cursor.left := by
  refine left_keyPart?_lt (fun read hread => ?_) h
  have hle : read.2.left ≤ (s.cursor.skip 1).left := Property.left_tag?_le hread
  rw [Cursor.left_skip] at hle
  exact Nat.lt_of_le_of_lt hle (Nat.sub_lt hs Nat.one_pos)

theorem left_blockText?_lt {s t : Lexer} {folded : Bool} (hs : 0 < s.cursor.left)
    (h : s.blockText? folded = some t) : t.cursor.left < s.cursor.left := by
  simp only [blockText?, Option.bind_eq_bind, Option.bind_eq_some_iff, Option.pure_def,
    Option.some.injEq] at h
  obtain ⟨u, hu, read, hread, rfl⟩ := h
  have hle : read.2.left ≤ (u.cursor.skip 1).left := BlockText.left_read?_le hread
  rw [cursor_dropKey? hu, Cursor.left_skip] at hle
  exact Nat.lt_of_le_of_lt hle (Nat.sub_lt hs Nat.one_pos)

theorem left_quoted?_lt {s t : Lexer} {single : Bool} (h : s.quoted? single = some t) :
    t.cursor.left < s.cursor.left := by
  refine left_keyPart?_lt (fun read hread => ?_) h
  simp only [Option.bind_eq_bind, Option.bind_eq_some_iff, Option.pure_def,
    Option.some.injEq] at hread
  obtain ⟨text, htext, rfl⟩ := hread
  have hlt : text.2.left < (s.cursor.rest.drop 1).length := Quoted.left_read?_lt htext
  rw [List.length_drop] at hlt
  exact Nat.lt_of_lt_of_le hlt (Nat.sub_le _ _)

theorem not_ends_of_startsPlain {flow : Bool} {c : Char} {cs : List Char}
    (h : startsPlain flow c cs) : ¬isSpace c ∧ ¬Plain.endsAt flow (c :: cs) := by
  unfold startsPlain at h
  split at h
  · rename_i hc
    subst hc
    simp [Plain.endsAt, isSpace, isBlank, isBreak, isFlowIndicator]
  · split at h
    · rename_i hc
      obtain rfl | rfl : c = '?' ∨ c = ':' := by simpa using hc
      all_goals simp_all [Plain.endsAt, isSpace, isBlank, isBreak]
    · simp_all [Plain.endsAt]

theorem left_plain?_lt {s t : Lexer} {c : Char} {cs : List Char} (hrest : s.cursor.rest = c :: cs)
    (hc : startsPlain s.inFlow c cs) (h : s.plain? = some t) : t.cursor.left < s.cursor.left := by
  simp only [plain?, Option.bind_eq_bind, Option.bind_eq_some_iff, Option.pure_def,
    Option.some.injEq] at h
  obtain ⟨u, hu, reading, hreading, rfl⟩ := h
  rw [cursor_noteKey? hu, inFlow_noteKey? hu, hrest] at hreading
  obtain ⟨hspace, hend⟩ := not_ends_of_startsPlain hc
  have hlt : reading.after.left < (c :: cs).length := Plain.left_read?_lt hspace hend hreading
  rw [← hrest] at hlt
  exact hlt

/-- What follows from both branches. -/
theorem of_ite_eq_some {p q : Prop} [Decidable p] {a b : Option Lexer} {t : Lexer}
    (ha : p → a = some t → q) (hb : b = some t → q) (h : (if p then a else b) = some t) : q := by
  split at h
  · exact ha ‹p› h
  · exact hb h

theorem left_token?_lt {s t : Lexer} {c : Char} {cs : List Char} (hrest : s.cursor.rest = c :: cs)
    (h : s.token? c cs = some t) : t.cursor.left < s.cursor.left := by
  have hs : 0 < s.cursor.left := by
    rw [Cursor.left, hrest]
    exact Nat.succ_pos _
  revert h
  rw [token?]
  exact
    of_ite_eq_some (fun _ => left_directive?_lt hs) <|
    of_ite_eq_some (fun _ => left_documentMarker?_lt hs) <|
    of_ite_eq_some (fun _ => left_openFlow?_lt hs) <|
    of_ite_eq_some (fun _ => left_openFlow?_lt hs) <|
    of_ite_eq_some (fun _ => left_closeFlow?_lt hs) <|
    of_ite_eq_some (fun _ => left_closeFlow?_lt hs) <|
    of_ite_eq_some (fun _ => left_flowComma?_lt hs) <|
    of_ite_eq_some (fun _ => left_blockItem?_lt hs) <|
    of_ite_eq_some (fun _ => left_explicitKey?_lt hs) <|
    of_ite_eq_some (fun _ => left_value?_lt hs) <|
    of_ite_eq_some (fun _ => left_name?_lt hs) <|
    of_ite_eq_some (fun _ => left_name?_lt hs) <|
    of_ite_eq_some (fun _ => left_tag?_lt hs) <|
    of_ite_eq_some (fun _ => left_blockText?_lt hs) <|
    of_ite_eq_some (fun _ => left_blockText?_lt hs) <|
    of_ite_eq_some (fun _ => left_quoted?_lt) <|
    of_ite_eq_some (fun _ => left_quoted?_lt) <|
    of_ite_eq_some (left_plain?_lt hrest) (fun h => by cases h)

theorem left_advance?_le {s t : Lexer} (h : s.advance? = some t) :
    t.cursor.left ≤ s.cursor.left := by
  simp only [advance?, Option.bind_eq_bind, Option.bind_eq_some_iff, Option.pure_def,
    Option.some.injEq] at h
  obtain ⟨u, hu, rfl⟩ := h
  rw [cursor_closeBlocks, cursor_checkKeys? hu]
  exact left_skipToToken_le s.inFlow s.keyAllowed false s.cursor.rest s.mark

theorem left_next?_lt {s t : Lexer} (h : s.next? = some t) : t.cursor.left < s.cursor.left := by
  simp only [next?, Option.bind_eq_bind, Option.bind_eq_some_iff] at h
  obtain ⟨here, hhere, h⟩ := h
  split at h
  · cases h
  · rename_i c cs hrest
    obtain ⟨u, hu, ht⟩ := Option.bind_eq_some_iff.1 h
    rw [cursor_checkKeys? ht]
    exact Nat.lt_of_lt_of_le (left_token?_lt hrest hu) (left_advance?_le hhere)

end Strapdown.Yaml.Lexer
