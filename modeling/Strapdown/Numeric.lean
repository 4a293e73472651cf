/-!
The numbers that attitude algebra computes with. The algebra is written once over `Numeric`; the
program runs it at `Float32`, where every operation rounds.
-/

namespace Strapdown

/-- Numbers with the operations and the constants of attitude algebra. -/
class Numeric (S : Type) extends Add S, Sub S, Mul S, Div S, Neg S where
  zero : S
  half : S
  one : S
  two : S
  /-- Norms below this one count as no length at all. -/
  negligible : S
  degreesPerRadian : S
  radiansPerDegree : S
  sqrt : S → S
  sin : S → S
  cos : S → S
  asin : S → S
  acos : S → S
  atan2 : S → S → S
  abs : S → S
  /-- The larger of two numbers. -/
  max : S → S → S
  lt : S → S → Bool
  /-- Whether a value is an actual number: not infinite, and not undefined. -/
  isFinite : S → Bool

namespace Numeric
variable {S : Type} [Numeric S]

/-- The nearest point of an interval; a value that compares with neither end stays as it is. -/
def clamp (low high x : S) : S :=
  if lt x low then low else if lt high x then high else x

def inDegrees (radians : S) : S := radians * degreesPerRadian

def inRadians (degrees : S) : S := degrees * radiansPerDegree

/-- The larger of two binary numbers; an operand that is not a number loses. -/
def largerFloat (a b : Float32) : Float32 :=
  if a.isNaN then b else if b.isNaN then a else if a < b then b else a

end Numeric

/-- The elementary functions of binary numbers, which a mathematical library provides. -/
structure Elementary where
  sin : Float32 → Float32
  cos : Float32 → Float32
  asin : Float32 → Float32
  acos : Float32 → Float32
  atan2 : Float32 → Float32 → Float32

namespace Elementary

/-- The library of the machine. -/
def native : Elementary :=
  ⟨Float32.sin, Float32.cos, Float32.asin, Float32.acos, Float32.atan2⟩

/-- Binary numbers with the functions of a library. -/
@[reducible]
def numeric (f : Elementary) : Numeric Float32 where
  zero := 0.0
  half := 0.5
  one := 1.0
  two := 2.0
  negligible := 1e-10
  degreesPerRadian := 57.29578
  radiansPerDegree := 0.017453292
  sqrt := Float32.sqrt
  sin := f.sin
  cos := f.cos
  asin := f.asin
  acos := f.acos
  atan2 := f.atan2
  abs := Float32.abs
  max := Numeric.largerFloat
  lt := fun a b => decide (a < b)
  isFinite := Float32.isFinite

instance : Numeric Float32 := native.numeric

end Elementary
end Strapdown
