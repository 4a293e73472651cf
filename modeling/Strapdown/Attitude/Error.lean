import Strapdown.Quaternion.RotationVector

/-!
How far apart two attitudes are. All measures take the shorter of the two ways round, so the sign of
a quaternion does not matter.
-/

namespace Strapdown.Quaternion
variable {S : Type} [Numeric S]

/-- The angle between two attitudes; zero where it is undefined. -/
def angleTo (a b : Quaternion S) : S :=
  let alignment := Numeric.abs (a.dot b)
  if Numeric.isFinite alignment then
    Numeric.two * Numeric.acos (Numeric.clamp Numeric.zero Numeric.one alignment)
  else Numeric.zero

/-- The rotation that is left, in body coordinates, to turn `current` into `desired`. -/
def remainder (current desired : Quaternion S) : Quaternion S := current.conjugate * desired

/-- The remaining rotation to first order: twice the sine of half its angle, along its axis. -/
def smallErrorTo (current desired : Quaternion S) : Vec3 S :=
  let error := (remainder current desired).shortWay.vec.scale Numeric.two
  if error.isFinite then error else Vec3.zero

/-- The remaining rotation as a rotation vector. -/
def errorTo (current desired : Quaternion S) : Vec3 S := (remainder current desired).log

end Strapdown.Quaternion
