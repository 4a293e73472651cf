import Strapdown.Binary
import Strapdown.Decimal.Shortest

/-!
Ways to write a binary number with its shortest digits, and with a fixed number of decimal places.
A `Style` holds what differs between the texts a program writes.
-/

namespace Strapdown.Decimal
open Float.Model (Format UnpackedFloat)
open Float.Model.UnpackedFloat (Sign)

/-- The number `0.d₁d₂… * 10 ^ point`, without zeros at the end. -/
structure Digits where
  digits : List Char
  point : Int
deriving DecidableEq

def toDigits (d : Decimal) : Digits :=
  let digits := Nat.toDigits 10 d.significand
  ⟨(digits.reverse.dropWhile (· = '0')).reverse, digits.length + d.exponent⟩

/-- How numbers are written. -/
structure Style where
  tie : Tie
  /-- Which positions of the point are written without an exponent. -/
  positional : Int → Bool
  /-- What follows the digits of a whole number. -/
  wholeEnd : List Char
  infinite : List Char
  undefined : List Char

def zeros (n : Nat) : List Char := List.replicate n '0'

/-- The digits of a whole number, after a minus sign if it is negative. -/
def wholeChars : Int → List Char
  | .ofNat n => Nat.toDigits 10 n
  | .negSucc n => '-' :: Nat.toDigits 10 (n + 1)

namespace Style

/-- Digits around a point, such as `120`, `1.25` or `0.005`. -/
def layPositional (style : Style) (d : Digits) : List Char :=
  if d.point ≤ 0 then '0' :: '.' :: zeros (-d.point).toNat ++ d.digits
  else if d.point < d.digits.length then
    d.digits.take d.point.toNat ++ '.' :: d.digits.drop d.point.toNat
  else d.digits ++ zeros (d.point.toNat - d.digits.length) ++ style.wholeEnd

/-- One digit before the point and a power of ten, such as `1.5e-7`. -/
def layScientific (d : Digits) : List Char :=
  let fraction := d.digits.drop 1
  d.digits.take 1 ++ (if fraction.isEmpty then [] else '.' :: fraction) ++
    'e' :: wholeChars (d.point - 1)

def lay (style : Style) (d : Digits) : List Char :=
  if style.positional d.point then style.layPositional d else layScientific d

end Style

def signText : Sign → List Char
  | .positive => []
  | .negative => ['-']

/-- The numbers that round to a number of a format. Below a power of two they are closer. -/
def targetIn (format : Format) (m : Nat) (e : Int) : Target :=
  ⟨m, e, m = power 2 (format.mantissaBits - 1) && format.minExponent < e⟩

namespace Style

/-- The shortest text in this style that reads back as a number of a format. -/
def chars (style : Style) (format : Format) : UnpackedFloat → List Char
  | .notANumber => style.undefined
  | .infinity sign => signText sign ++ style.infinite
  | .zero sign => signText sign ++ '0' :: style.wholeEnd
  | .finite sign m e _ =>
    signText sign ++ style.lay ((targetIn format m e).shortest style.tie).toDigits

def write (style : Style) (x : Float32) : String :=
  String.ofList (style.chars .binary32 (Binary.ofFloat32 x))

/-- All digits before the point are written out, and a whole number has none after it. -/
def plain : Style where
  tie := .upper
  positional := fun _ => true
  wholeEnd := []
  infinite := ['i', 'n', 'f']
  undefined := ['N', 'a', 'N']

end Style

/-- `num / den` to the nearest whole number, halves to the even one. -/
def roundHalfEven (num den : Nat) : Nat :=
  let below := num / den
  match compare (2 * (num % den)) den with
  | .lt => below
  | .gt => below + 1
  | .eq => if below % 2 = 0 then below else below + 1

/-- A count of units of the last decimal place. -/
def layPlaces (places units : Nat) : List Char :=
  let digits := Nat.toDigits 10 units
  let padded := zeros (places + 1 - digits.length) ++ digits
  let whole := padded.length - places
  padded.take whole ++ '.' :: padded.drop whole

/-- A number with a fixed number of decimal places, rounded from its exact value. -/
def fixedPlaces (places : Nat) (x : Float32) : String :=
  String.ofList <| match Binary.ofFloat32 x with
    | .notANumber => Style.plain.undefined
    | .infinity sign => signText sign ++ Style.plain.infinite
    | .zero sign => signText sign ++ layPlaces places 0
    | .finite sign m e _ =>
      signText sign ++
        layPlaces places (roundHalfEven (m * power 2 e * power 10 places) (power 2 (-e)))

end Strapdown.Decimal
