/-!
Binary floating-point numbers taken apart into sign, significand and exponent, and roundings of
them that are exact: to a narrower format and to a whole number.
-/

namespace Strapdown.Binary
open Float.Model (Format UnpackedFloat)

def ofFloat32 (x : Float32) : UnpackedFloat := .unpack .binary32 x.toBits.toBitVec

/-- Packs a value that binary32 can hold. -/
def toFloat32 (x : UnpackedFloat) : Float32 := .ofBits (.ofBitVec (x.pack .binary32))

/-- The nearest binary32 number, of two equally near ones the even one. -/
def narrow : UnpackedFloat → Float32
  | .finite sign m e _ => toFloat32 (.round .binary32 sign m e)
  | x => toFloat32 x

/-- The value as binary64 holds it: a number beyond its range is infinite. -/
def settle (x : UnpackedFloat) : UnpackedFloat := .unpack .binary64 (x.pack .binary64)

/-- `m * 2 ^ e` to the nearest whole number, halves upwards. -/
def nearestWhole (m : Nat) : Int → Nat
  | .ofNat e => m * Nat.pow 2 e
  | .negSucc e => (m + Nat.pow 2 e) / Nat.pow 2 (e + 1)

/-- The nearest whole number, halves away from zero. -/
def roundWhole (x : Float32) : Float32 :=
  match ofFloat32 x with
  | .finite .positive m e _ => Float32.ofNat (nearestWhole m e)
  | .finite .negative m e _ => -Float32.ofNat (nearestWhole m e)
  | _ => x

/-- The largest count of a 64-bit word. -/
def maxCount : Nat := UInt64.size - 1

/-- The nearest count, halves upwards; what is no count becomes the closest one, or zero. -/
def toCount (x : Float32) : Nat :=
  match ofFloat32 x with
  | .finite .positive m e _ => min (nearestWhole m e) maxCount
  | .infinity .positive => maxCount
  | _ => 0

end Strapdown.Binary
