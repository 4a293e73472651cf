import Strapdown.Yaml.Block
import Mathlib

/-! The text of a value, by the columns that its parts start at. -/
namespace Strapdown.Yaml

variable {n : ℕ} {lines : List String} {cs : List Char}

def spaces (n : ℕ) : List Char := List.replicate n ' '

/-- A line break and the indentation of the next line. -/
def newline (n : ℕ) : List Char := '\n' :: spaces n

theorem newline_two (n : ℕ) : newline n ++ [' ', ' '] = newline (n + 2) := by
  simp [newline, spaces, List.replicate_succ']

/-- Lines below a text, all indented alike. -/
def below (n : ℕ) (lines : List String) : List Char :=
  lines.flatMap fun line => newline n ++ line.toList

theorem below_append (n : ℕ) (lines more : List String) :
    below n (lines ++ more) = below n lines ++ below n more := List.flatMap_append

theorem below_cons (n : ℕ) (line : String) (lines : List String) :
    below n (line :: lines) = newline n ++ (line.toList ++ below n lines) := by
  rw [below, List.flatMap_cons, List.append_assoc]
  rfl

theorem below_indented (n : ℕ) (lines : List String) :
    below n (Block.indented lines) = below (n + 2) lines := by
  induction lines with
  | nil => rfl
  | cons line lines ih =>
    rw [Block.indented, List.map_cons, below_cons, below_cons, ← newline_two]
    rw [Block.indented] at ih
    simp [ih]

theorem below_dashed (hlines : lines ≠ []) (h : newline (n + 2) ++ cs = below (n + 2) lines) :
    below n (Block.dashed lines) = newline n ++ '-' :: ' ' :: cs := by
  obtain ⟨line, lines, rfl⟩ := List.exists_cons_of_ne_nil hlines
  rw [below_cons] at h
  rw [Block.dashed, below_cons, below_indented, List.append_cancel_left h]
  simp

theorem newline_flatMap (lines : List String) :
    '\n' :: lines.flatMap (fun line => line.toList ++ ['\n']) = below 0 lines ++ ['\n'] := by
  induction lines with
  | nil => rfl
  | cons line lines ih =>
    simp only [List.flatMap_cons, below_cons, List.append_assoc, ← ih]
    rfl

namespace Block

mutual

/-- The text of a value from a column on. -/
def layout (n : ℕ) : Block → List Char
  | scalar text => text.toList
  | sequence [] => ['[', ']']
  | sequence (item :: items) => '-' :: ' ' :: (layout (n + 2) item ++ layoutItems n items)
  | mapping [] => ['\x7b', '\x7d']
  | mapping ((key, value) :: entries) =>
    key.toList ++ ':' :: (layoutValue n value ++ layoutEntries n entries)

/-- The items of a sequence, each on lines of its own. -/
def layoutItems (n : ℕ) : List Block → List Char
  | [] => []
  | item :: items => newline n ++ '-' :: ' ' :: (layout (n + 2) item ++ layoutItems n items)

/-- The entries of a mapping, each on lines of its own. -/
def layoutEntries (n : ℕ) : List (String × Block) → List Char
  | [] => []
  | (key, value) :: entries =>
    newline n ++ (key.toList ++ ':' :: (layoutValue n value ++ layoutEntries n entries))

/-- What follows the colon of a key. -/
def layoutValue (n : ℕ) : Block → List Char
  | scalar text => ' ' :: text.toList
  | sequence [] => [' ', '[', ']']
  | sequence (item :: items) =>
    newline n ++ '-' :: ' ' :: (layout (n + 2) item ++ layoutItems n items)
  | mapping [] => [' ', '\x7b', '\x7d']
  | mapping ((key, value) :: entries) =>
    newline (n + 2) ++ (key.toList ++ ':' ::
      (layoutValue (n + 2) value ++ layoutEntries (n + 2) entries))

end

theorem valueLines_ne_nil (key : String) (value : Block) : valueLines key value ≠ [] := by
  cases value with
  | scalar text => simp [valueLines]
  | sequence items => cases items <;> simp [valueLines]
  | mapping entries => cases entries <;> simp [valueLines]

theorem lines_ne_nil : ∀ b : Block, b.lines ≠ []
  | scalar text => by simp [lines]
  | sequence [] => by simp [lines]
  | sequence (item :: items) => by
    obtain ⟨line, more, hlines⟩ := List.exists_cons_of_ne_nil (lines_ne_nil item)
    simp [lines, itemLines, hlines, dashed]
  | mapping [] => by simp [lines]
  | mapping ((key, value) :: entries) => by
    simp [lines, entryLines, valueLines_ne_nil key value]

mutual

theorem layout_eq (n : ℕ) : ∀ b : Block, newline n ++ layout n b = below n b.lines
  | scalar text => by simp [layout, lines, below]
  | sequence [] => by simp [layout, lines, below]
  | sequence (item :: items) => by
    have hitem := below_dashed (lines_ne_nil item) (layout_eq (n + 2) item)
    rw [layout, lines, itemLines, below_append, hitem, ← layoutItems_eq n items]
    simp
  | mapping [] => by simp [layout, lines, below]
  | mapping ((key, value) :: entries) => by
    rw [layout, lines, entryLines, below_append, ← layoutEntries_eq n entries,
      ← layoutValue_eq n key value]
    simp

theorem layoutItems_eq (n : ℕ) : ∀ items : List Block, layoutItems n items = below n (itemLines items)
  | [] => by simp [layoutItems, itemLines, below]
  | item :: items => by
    have hitem := below_dashed (lines_ne_nil item) (layout_eq (n + 2) item)
    rw [layoutItems, itemLines, below_append, hitem, ← layoutItems_eq n items]
    simp

theorem layoutEntries_eq (n : ℕ) : ∀ entries : List (String × Block),
    layoutEntries n entries = below n (entryLines entries)
  | [] => by simp [layoutEntries, entryLines, below]
  | (key, value) :: entries => by
    rw [layoutEntries, entryLines, below_append, ← layoutEntries_eq n entries,
      ← layoutValue_eq n key value]
    simp

theorem layoutValue_eq (n : ℕ) (key : String) : ∀ value : Block,
    newline n ++ (key.toList ++ ':' :: layoutValue n value) = below n (valueLines key value)
  | scalar text => by simp [layoutValue, valueLines, below]
  | sequence [] => by simp [layoutValue, valueLines, below]
  | sequence (item :: items) => by
    have hitem := below_dashed (lines_ne_nil item) (layout_eq (n + 2) item)
    rw [layoutValue, valueLines, below_cons, itemLines, below_append, hitem,
      ← layoutItems_eq n items]
    simp
  | mapping [] => by simp [layoutValue, valueLines, below]
  | mapping ((k, value) :: entries) => by
    rw [layoutValue, valueLines, below_cons, below_indented, entryLines, below_append,
      ← layoutEntries_eq (n + 2) entries, ← layoutValue_eq (n + 2) k value]
    simp

end

theorem toList_text (b : Block) : b.text.toList = layout 0 b ++ ['\n'] := by
  have h := newline_flatMap b.lines
  rw [← layout_eq 0 b] at h
  rw [text, String.toList_ofList]
  exact List.cons.inj h |>.2

end Block
end Strapdown.Yaml
