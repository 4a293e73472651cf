import Strapdown.Decimal.Power

/-!
Decimal numbers, and the shortest one that rounds to a given binary number. Among the shortest it
is the nearest; of two equally near ones a `Tie` rule picks. The search looks at the two neighbours
of the binary number on the grids of one, two, and more digits, in exact arithmetic.
-/

namespace Strapdown

/-- The number `significand * 10 ^ exponent`. -/
structure Decimal where
  significand : Nat
  exponent : Int
deriving DecidableEq

namespace Decimal

/-- Which of two equally near neighbours is taken. -/
inductive Tie
  | upper
  | even

/-- Compares `a * 10 ^ p` with `b * 2 ^ q`. -/
def compareBinary (a : Nat) (p : Int) (b : Nat) (q : Int) : Ordering :=
  compare (a * power 10 p * power 2 (-q)) (b * power 2 q * power 10 (-p))

/-- How many decimal digits a count is written with. -/
def digitCount (n : Nat) : Nat := (Nat.toDigits 10 n).length

/--
A positive binary number `significand * 2 ^ exponent` together with what rounds to it: up to half a
unit above, and below half a unit, or a quarter where the units below are smaller.
-/
structure Target where
  significand : Nat
  exponent : Int
  closeBelow : Bool

namespace Target

/-- Whether a decimal rounds to the target. The ends of the interval do if the target is even. -/
def accepts (t : Target) (d : Decimal) : Bool :=
  let below := compareBinary d.significand d.exponent
    (4 * t.significand - if t.closeBelow then 1 else 2) (t.exponent - 2)
  let above := compareBinary d.significand d.exponent (4 * t.significand + 2) (t.exponent - 2)
  if t.significand % 2 = 0 then below.isGE && above.isLE else below.isGT && above.isLT

/-- The `k` for which the target is at least `10 ^ (k - 1)` and less than `10 ^ k`. -/
def magnitude (t : Target) : Int :=
  let num := t.significand * power 2 t.exponent
  let den := power 2 (-t.exponent)
  if den ≤ num then digitCount (num / den) else 1 - (digitCount ((den - 1) / num) : Int)

/-- The target in units of `10 ^ p`, rounded down. -/
def floorAt (t : Target) (p : Int) : Nat :=
  (t.significand * power 2 t.exponent * power 10 (-p)) / (power 2 (-t.exponent) * power 10 p)

/-- The nearest decimal with so many digits that rounds to the target, if there is one. -/
def withDigits? (t : Target) (tie : Tie) (digits : Nat) : Option Decimal :=
  let p := t.magnitude - digits
  let lower : Decimal := ⟨t.floorAt p, p⟩
  let upper : Decimal := ⟨t.floorAt p + 1, p⟩
  match t.accepts lower, t.accepts upper with
  | false, false => none
  | true, false => some lower
  | false, true => some upper
  | true, true =>
    match compareBinary (2 * lower.significand + 1) p t.significand (t.exponent + 1), tie with
    | .lt, _ => some upper
    | .gt, _ => some lower
    | .eq, .upper => some upper
    | .eq, .even => some (if lower.significand % 2 = 0 then lower else upper)

/-- Seventeen digits tell any two binary64 numbers apart. -/
def maxDigits : Nat := 17

/-- The shortest decimal that rounds to the target. -/
def shortest (t : Target) (tie : Tie) : Decimal :=
  let found := (List.range maxDigits).findSome? fun n => t.withDigits? tie (n + 1)
  found.getD ⟨t.floorAt (t.magnitude - maxDigits), t.magnitude - maxDigits⟩

end Target
end Decimal
end Strapdown
