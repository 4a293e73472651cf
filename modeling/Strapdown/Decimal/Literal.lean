import Strapdown.Binary
import Strapdown.Decimal.Shortest

/-!
Decimal literals: an optional sign, digits with an optional point among or around them, and an
optional power of ten.
-/

namespace Strapdown.Decimal
open Float.Model (Format UnpackedFloat)

/-- The count written by a list of digits in a base; `none` if there is none or one is no digit. -/
def digitsValue? (base : Nat) (digits : List Char) : Option Nat :=
  if digits.isEmpty then none
  else digits.foldlM
    (fun n c => (digitOf? c).bind fun d => if d < base then some (base * n + d) else none) 0
where
  digitOf? (c : Char) : Option Nat :=
    if '0' ≤ c ∧ c ≤ '9' then some (c.toNat - '0'.toNat)
    else if 'a' ≤ c ∧ c ≤ 'z' then some (c.toNat - 'a'.toNat + 10)
    else if 'A' ≤ c ∧ c ≤ 'Z' then some (c.toNat - 'A'.toNat + 10)
    else none

/-- Splits a leading sign from a text; `true` stands for a minus. -/
def splitSign : List Char → Bool × List Char
  | '-' :: cs => (true, cs)
  | '+' :: cs => (false, cs)
  | cs => (false, cs)

/-- The power of ten of a literal: nothing, or a mark, an optional sign and digits. -/
def exponent? : List Char → Option Int
  | [] => some 0
  | mark :: cs =>
    if mark = 'e' ∨ mark = 'E' then
      let (negative, digits) := splitSign cs
      (digitsValue? 10 digits).map fun (n : Nat) => if negative then -(n : Int) else n
    else none

/-- A literal as written; the sign of zero counts. -/
structure Literal where
  negative : Bool
  magnitude : Decimal
deriving DecidableEq

namespace Literal

def parse? (text : List Char) : Option Literal := do
  let (negative, cs) := splitSign text
  let (whole, rest) := cs.span Char.isDigit
  let (fraction, rest) := match rest with
    | '.' :: cs => cs.span Char.isDigit
    | cs => ([], cs)
  let significand ← digitsValue? 10 (whole ++ fraction)
  let exponent ← exponent? rest
  return ⟨negative, significand, exponent - fraction.length⟩

/-- The nearest binary64 number; it is infinite if the literal is out of range. -/
def toBinary64 (l : Literal) : UnpackedFloat :=
  let x := Binary.settle (.ofScientific .binary64 l.magnitude.significand l.magnitude.exponent)
  if l.negative then x.neg else x

end Literal
end Strapdown.Decimal
