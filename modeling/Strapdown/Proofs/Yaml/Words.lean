import Strapdown.Proofs.Yaml.Layout
import Strapdown.Yaml.Token.Lexer

/-! Words: plain scalars that end at a colon or at the end of their line. -/
namespace Strapdown.Yaml

variable {c : Char} {cs word rest : List Char} {m : Mark} {n indent : ℕ}

def IsWordChar (c : Char) : Prop := c.isAlphanum = true ∨ c = '_' ∨ c = '.' ∨ c = '-' ∨ c = '+'

/-- A text that is a plain scalar wherever it stands in a block. -/
@[mk_iff]
structure IsWord (word : List Char) : Prop where
  chars : ∀ c ∈ word, IsWordChar c
  alphanum : ∃ c ∈ word, c.isAlphanum = true

instance (c : Char) : Decidable (IsWordChar c) :=
  inferInstanceAs (Decidable (_ ∨ _ ∨ _ ∨ _ ∨ _))

instance (word : List Char) : Decidable (IsWord word) :=
  decidable_of_iff (word.all (IsWordChar ·) = true ∧ word.any Char.isAlphanum = true) <| by
    rw [isWord_iff, List.all_eq_true, List.any_eq_true]
    simp only [decide_eq_true_eq]

theorem IsWordChar.ne {d : Char} (h : IsWordChar c) (hd : ¬ IsWordChar d) : c ≠ d := by
  rintro rfl
  exact hd h

/-- The characters that start tokens other than plain scalars, but for the dash. -/
def indicators : List Char :=
  ['%', '[', '\x7b', ']', '\x7d', ',', '?', ':', '*', '&', '!', '|', '>', '\x27', '\x22', '#', '@',
    '\x60']

theorem IsWordChar.ne_indicator (h : IsWordChar c) : ∀ d ∈ indicators, c ≠ d := by
  have hall : indicators.all (fun d => !decide (IsWordChar d)) = true := by decide
  intro d hd
  refine h.ne ?_
  simpa using List.all_eq_true.mp hall d hd

/-- A character that a token starts with, and that ends the space before it. -/
structure StartsToken (c : Char) : Prop where
  not_space : isSpace c = false
  not_comment : c ≠ '#'
  not_mark : c ≠ byteOrderMark

theorem IsWordChar.startsToken (h : IsWordChar c) : StartsToken c := by
  refine ⟨?_, h.ne (by decide), h.ne (by decide)⟩
  simp [isSpace, isBlank, isBreak, h.ne (by decide : ¬ IsWordChar ' '),
    h.ne (by decide : ¬ IsWordChar '\t'), h.ne (by decide : ¬ IsWordChar '\n'),
    h.ne (by decide : ¬ IsWordChar '\r'), h.ne (by decide : ¬ IsWordChar '\x85'),
    h.ne (by decide : ¬ IsWordChar '\u2028'), h.ne (by decide : ¬ IsWordChar '\u2029')]

theorem StartsToken.not_blank (h : StartsToken c) : isBlank c = false := by
  have := h.not_space
  simp only [isSpace, Bool.or_eq_false_iff] at this
  exact this.1

theorem StartsToken.not_break (h : StartsToken c) : isBreak c = false := by
  have := h.not_space
  simp only [isSpace, Bool.or_eq_false_iff] at this
  exact this.2

/-- A text that starts with a token. -/
def Starts (cs : List Char) : Prop := ∃ c more, cs = c :: more ∧ StartsToken c

theorem Starts.append (h : Starts cs) (more : List Char) : Starts (cs ++ more) := by
  obtain ⟨c, tail, rfl, hc⟩ := h
  exact ⟨c, tail ++ more, rfl, hc⟩

theorem IsWord.starts (h : IsWord word) : Starts word := by
  obtain ⟨x, hx, -⟩ := h.alphanum
  obtain ⟨c, cs, rfl⟩ := List.exists_cons_of_ne_nil (List.ne_nil_of_mem hx)
  exact ⟨c, cs, rfl, (h.chars c List.mem_cons_self).startsToken⟩

/-- The place after a line break and so many spaces. -/
def Mark.lineAt (m : Mark) (n : ℕ) : Mark := ⟨m.index + 1 + n, m.line + 1, n⟩

/-- The place after a text without line breaks. -/
def Mark.past (m : Mark) (cs : List Char) : Mark := cs.foldl Mark.after m

theorem Mark.column_past (m : Mark) (cs : List Char) : (m.past cs).column = m.column + cs.length := by
  induction cs generalizing m with
  | nil => rfl
  | cons c cs ih =>
    rw [past, List.foldl_cons, List.length_cons]
    exact (ih _).trans (by rw [after]; ring)

theorem Mark.line_past (m : Mark) (cs : List Char) : (m.past cs).line = m.line := by
  induction cs generalizing m with
  | nil => rfl
  | cons c cs ih => exact ih _

theorem IsWordChar.toNat_mem (h : IsWordChar c) : 32 ≤ c.toNat ∧ c.toNat ≤ 126 := by
  rcases h with h | rfl | rfl | rfl | rfl
  · simp only [Char.isAlphanum, Char.isAlpha, Char.isUpper, Char.isLower, Char.isDigit,
      Bool.or_eq_true, Bool.and_eq_true, decide_eq_true_eq, ge_iff_le, UInt32.le_iff_toNat_le] at h
    change ((65 ≤ c.toNat ∧ c.toNat ≤ 90) ∨ (97 ≤ c.toNat ∧ c.toNat ≤ 122)) ∨
      (48 ≤ c.toNat ∧ c.toNat ≤ 57) at h
    omega
  all_goals decide

theorem IsWordChar.utf8Size_eq (h : IsWordChar c) : c.utf8Size = 1 := by
  rw [Char.utf8Size_eq_one_iff, UInt32.le_iff_toNat_le]
  exact h.toNat_mem.2.trans (by decide)

theorem Mark.index_past (hword : ∀ c ∈ word, IsWordChar c) (m : Mark) :
    (m.past word).index = m.index + word.length := by
  induction word generalizing m with
  | nil => rfl
  | cons c word ih =>
    obtain ⟨hc, htail⟩ := List.forall_mem_cons.mp hword
    rw [past, List.foldl_cons, List.length_cons]
    refine (ih htail (m.after c)).trans ?_
    rw [after, hc.utf8Size_eq]
    ring

/-- What follows a value: the end of the text, or a line that is indented no further. -/
inductive Follows (indent : ℤ) : List Char → Prop
  | finish : Follows indent ['\n']
  | line {n : ℕ} {cs : List Char} (hn : (n : ℤ) ≤ indent) (hcs : Starts cs) :
      Follows indent (newline n ++ cs)

theorem Follows.mono {i j : ℤ} (h : Follows i rest) (hij : i ≤ j) : Follows j rest := by
  cases h with
  | finish => exact .finish
  | line hn hcs => exact .line (hn.trans hij) hcs

theorem StartsToken.ne_return (h : StartsToken c) : c ≠ '\r' := by
  rintro rfl
  exact absurd h.not_space (by decide)

theorem skipToToken_start (h : StartsToken c) (flow keyAllowed : Bool) (cs : List Char)
    (m : Mark) : skipToToken flow keyAllowed false (c :: cs) m = ⟨keyAllowed, ⟨c :: cs, m⟩⟩ := by
  have hblank := h.not_blank
  simp only [isBlank, Bool.or_eq_false_iff, decide_eq_false_iff_not] at hblank
  rw [skipToToken]
  · simp [h.not_break, hblank.1, hblank.2, h.not_comment, h.not_mark]
  · intro cs' hc
    exact absurd hc h.ne_return

theorem skipToToken_spaces (n : ℕ) (keyAllowed : Bool) (cs : List Char) (m : Mark) :
    skipToToken false keyAllowed false (spaces n ++ cs) m =
      skipToToken false keyAllowed false cs ⟨m.index + n, m.line, m.column + n⟩ := by
  induction n generalizing m with
  | zero => rfl
  | succ n ih =>
    have hstep : skipToToken false keyAllowed false (' ' :: (spaces n ++ cs)) m =
        skipToToken false keyAllowed false (spaces n ++ cs) (m.after ' ') := by
      rw [skipToToken]
      · rfl
      · simp
    have hmark : (⟨(m.after ' ').index + n, (m.after ' ').line, (m.after ' ').column + n⟩ : Mark) =
        ⟨m.index + (n + 1), m.line, m.column + (n + 1)⟩ := by
      simp only [Mark.after, Mark.mk.injEq, true_and]
      exact ⟨by rw [Nat.add_assoc, Nat.add_comm _ n]; rfl, by omega⟩
    rw [spaces, List.replicate_succ, List.cons_append]
    exact hstep.trans ((ih _).trans (by rw [hmark]))

theorem skipToToken_newline (n : ℕ) (keyAllowed : Bool) (cs : List Char) (m : Mark) :
    skipToToken false keyAllowed false (newline n ++ cs) m =
      skipToToken false true false cs (m.lineAt n) := by
  have hstep : skipToToken false keyAllowed false ('\n' :: (spaces n ++ cs)) m =
      skipToToken false true false (spaces n ++ cs) (m.newline 1) := by
    rw [skipToToken]
    · simp [isBreak]
      rfl
    · simp
  refine hstep.trans ((skipToToken_spaces n true cs _).trans ?_)
  rw [Mark.lineAt, Mark.newline]
  simp

namespace Plain

/-- A word is taken whole. -/
theorem read?_word (hword : ∀ c ∈ word, IsWordChar c) (text rest : List Char) (m : Mark) :
    read? false indent text .empty (word ++ rest) m =
      read? false indent (word.reverse ++ text) .empty rest (m.past word) := by
  induction word generalizing text m with
  | nil => rfl
  | cons c word ih =>
    obtain ⟨hc, htail⟩ := List.forall_mem_cons.mp hword
    have hcolon : c ≠ ':' := hc.ne (by decide)
    have hstep : read? false indent text .empty (c :: (word ++ rest)) m =
        read? false indent (c :: text) .empty (word ++ rest) (m.after c) := by
      rw [read?]
      · simp [hc.startsToken.not_break, hc.startsToken.not_blank, Gap.isEmpty, Gap.empty, endsAt,
          hcolon, Gap.text]
      · intro cs' h
        exact absurd h hc.startsToken.ne_return
    rw [List.cons_append, hstep, ih htail]
    simp [Mark.past]

theorem read?_colon (indent : ℕ) (h : atSpace cs = true) (text : List Char) (m : Mark) :
    read? false indent text .empty (':' :: cs) m = some ⟨text.reverse, false, ⟨':' :: cs, m⟩⟩ := by
  rw [read?]
  · simp [isBreak, isBlank, Gap.isEmpty, Gap.empty, endsAt, h]
  · simp

theorem read?_spaces {gap : Gap} (hgap : gap.broken = true) (n : ℕ) (text cs : List Char)
    (m : Mark) : read? false indent text gap (spaces n ++ cs) m =
      read? false indent text gap cs ⟨m.index + n, m.line, m.column + n⟩ := by
  induction n generalizing m with
  | zero => rfl
  | succ n ih =>
    have hstep : read? false indent text gap (' ' :: (spaces n ++ cs)) m =
        read? false indent text gap (spaces n ++ cs) m.next := by
      rw [read?]
      · simp [isBreak, isBlank, Gap.addBlank, hgap]
      · simp
    have hmark : (⟨m.next.index + n, m.next.line, m.next.column + n⟩ : Mark) =
        ⟨m.index + (n + 1), m.line, m.column + (n + 1)⟩ := by
      simp only [Mark.next, Mark.skip, Mark.mk.injEq, true_and]
      omega
    rw [spaces, List.replicate_succ, List.cons_append]
    exact hstep.trans ((ih _).trans (by rw [hmark]))

/-- A scalar ends at a line that is indented too little. -/
theorem read?_line (hn : n < indent) (hc : StartsToken c) (text cs : List Char) (m : Mark) :
    read? false indent text .empty (newline n ++ c :: cs) m =
      some ⟨text.reverse, true, ⟨c :: cs, m.lineAt n⟩⟩ := by
  have hstep : read? false indent text .empty ('\n' :: (spaces n ++ c :: cs)) m =
      read? false indent text (Gap.empty.addBreak '\n') (spaces n ++ c :: cs) (m.newline 1) := by
    rw [read?]
    · simp [isBreak]
      rfl
    · simp
  have hend : read? false indent text (Gap.empty.addBreak '\n') (c :: cs) (m.lineAt n) =
      some ⟨text.reverse, true, ⟨c :: cs, m.lineAt n⟩⟩ := by
    rw [read?]
    · simp [hc.not_break, hc.not_blank, Gap.isEmpty, Gap.empty, Gap.addBreak, endsBefore,
        Mark.lineAt, hn]
    · intro cs' h
      exact absurd h hc.ne_return
  refine hstep.trans ((read?_spaces rfl n text (c :: cs) _).trans ?_)
  rw [← hend, Mark.lineAt, Mark.newline]
  simp

theorem read?_finish (text : List Char) (m : Mark) :
    read? false indent text .empty ['\n'] m = some ⟨text.reverse, true, ⟨[], m.lineAt 0⟩⟩ := by
  rw [read?]
  · simp [isBreak, read?, Gap.addBreak, Gap.empty, Mark.lineAt, Mark.newline]
    rfl
  · simp

end Plain

/-- The place that follows a value, for a reader that skips space and for one that reads words. -/
theorem Follows.exists_place {i : ℤ} (h : Follows i rest) (m : Mark) : ∃ cs m',
    (∀ keyAllowed, skipToToken false keyAllowed false rest m = ⟨true, ⟨cs, m'⟩⟩) ∧
    (∀ keyAllowed, skipToToken false keyAllowed false cs m' = ⟨keyAllowed, ⟨cs, m'⟩⟩) ∧
    (∀ text, Plain.read? false (i + 1).toNat text .empty rest m =
      some ⟨text.reverse, true, ⟨cs, m'⟩⟩) ∧
    (m'.column ≤ i ∨ m'.column = 0) := by
  cases h with
  | finish =>
    refine ⟨[], m.lineAt 0, fun ka => skipToToken_newline 0 ka [] m, fun ka => rfl,
      fun text => Plain.read?_finish text m, Or.inr rfl⟩
  | @line n _ hn hcs =>
    obtain ⟨c, cs, rfl, hc⟩ := hcs
    refine ⟨c :: cs, m.lineAt n, fun ka => ?_, fun ka => skipToToken_start hc false ka cs _,
      fun text => Plain.read?_line (by omega) hc text cs m, Or.inl hn⟩
    rw [skipToToken_newline, skipToToken_start hc]

/-- A word is more than three equal signs before a space. -/
theorem not_atSpace_of_signs (hw : IsWord word) (hc : c.isAlphanum = false)
    (h : word ++ rest = c :: c :: c :: cs) : atSpace cs = false := by
  obtain ⟨x, hx, halnum⟩ := hw.alphanum
  have hne : x ≠ c := by
    rintro rfl
    rw [hc] at halnum
    cases halnum
  rcases word with _ | ⟨a, _ | ⟨b, _ | ⟨d, _ | ⟨e, w⟩⟩⟩⟩
  · cases hx
  · simp_all
  · simp_all
  · simp_all
  · simp only [List.cons_append, List.cons.injEq] at h
    rw [← h.2.2.2]
    exact (hw.chars e (by simp)).startsToken.not_space

theorem not_atDocumentMarker (hw : IsWord word) (rest : List Char) :
    atDocumentMarker (word ++ rest) = false := by
  unfold atDocumentMarker
  split
  · next cs heq => exact not_atSpace_of_signs hw (by decide) heq
  · next cs heq => exact not_atSpace_of_signs hw (by decide) heq
  · rfl

end Strapdown.Yaml
