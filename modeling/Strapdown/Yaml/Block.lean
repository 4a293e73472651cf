import Strapdown.Decimal.Style

/-!
Writing YAML in block style. Nested mappings are indented by two columns, and the items of a
sequence start at the column of its key.
-/

namespace Strapdown.Yaml

/-- A value to be written. -/
inductive Block
  | scalar (text : String)
  | sequence (items : List Block)
  | mapping (entries : List (String × Block))

namespace Block

/--
Numbers have a point and take a power of ten only below `10 ^ -6` and from `10 ^ 13` on. Of two
equally near decimals the even one is written.
-/
def numberStyle : Decimal.Style where
  tie := .even
  positional := fun point => -6 < point && point ≤ 13
  wholeEnd := ['.', '0']
  infinite := ['.', 'i', 'n', 'f']
  undefined := ['.', 'n', 'a', 'n']

def float32 (x : Float32) : Block := .scalar (numberStyle.write x)

def count (n : Nat) : Block := .scalar (String.ofList (Nat.toDigits 10 n))

def indented (lines : List String) : List String := lines.map ("  " ++ ·)

/-- Puts a dash before the lines of an item. -/
def dashed : List String → List String
  | [] => []
  | first :: more => ("- " ++ first) :: indented more

mutual

/-- The lines of a value that stands by itself. -/
def lines : Block → List String
  | scalar text => [text]
  | sequence [] => ["[]"]
  | sequence (item :: items) => itemLines (item :: items)
  | mapping [] => ["\x7b\x7d"]
  | mapping (entry :: entries) => entryLines (entry :: entries)

def itemLines : List Block → List String
  | [] => []
  | item :: items => dashed (lines item) ++ itemLines items

def entryLines : List (String × Block) → List String
  | [] => []
  | (key, value) :: entries => valueLines key value ++ entryLines entries

/-- The lines of an entry: a short value on the line of its key, or a longer one below. -/
def valueLines (key : String) : Block → List String
  | scalar text => [key ++ ": " ++ text]
  | sequence [] => [key ++ ": []"]
  | sequence (item :: items) => (key ++ ":") :: itemLines (item :: items)
  | mapping [] => [key ++ ": \x7b\x7d"]
  | mapping (entry :: entries) => (key ++ ":") :: indented (entryLines (entry :: entries))

end

def text (b : Block) : String := String.ofList (b.lines.flatMap fun line => line.toList ++ ['\n'])

end Block
end Strapdown.Yaml
