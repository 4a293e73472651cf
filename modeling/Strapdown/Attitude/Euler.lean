import Strapdown.Attitude.Dcm
import Strapdown.Quaternion.RotationVector

/-!
Euler angles in the order yaw, pitch, roll about the body axes z, y, x. They are for display and for
giving an initial attitude; the attitude itself stays a quaternion.
-/

namespace Strapdown

/-- Angles in radians, unless a name says degrees. -/
structure Euler (S : Type) where
  roll : S
  pitch : S
  yaw : S
deriving DecidableEq

namespace Euler
variable {S T : Type}

def map (f : S → T) (e : Euler S) : Euler T := ⟨f e.roll, f e.pitch, f e.yaw⟩

variable [Numeric S]

def zero : Euler S := ⟨Numeric.zero, Numeric.zero, Numeric.zero⟩

def inDegrees (e : Euler S) : Euler S := e.map Numeric.inDegrees

def isFinite (e : Euler S) : Bool :=
  Numeric.isFinite e.roll && Numeric.isFinite e.pitch && Numeric.isFinite e.yaw

/-- The angles of a matrix. Its corner entry, the sine of the pitch, is first brought into range. -/
def ofDcm (m : Dcm S) : Euler S where
  roll := Numeric.atan2 m.row2.y m.row2.z
  pitch := Numeric.asin (Numeric.clamp (-Numeric.one) Numeric.one (-m.row2.x))
  yaw := Numeric.atan2 m.row1.x m.row0.x

/-- The angles of an attitude of any length. -/
def ofQuaternion (q : Quaternion S) : Euler S := ofDcm q.normalize.toDcm

/-- The attitude reached by turning about z, then the new y, then the new x. -/
def toQuaternion (e : Euler S) : Quaternion S :=
  let about (x y z : S) : S → Quaternion S := Quaternion.ofAxisAngle ⟨x, y, z⟩
  let yaw := about Numeric.zero Numeric.zero Numeric.one e.yaw
  let pitch := about Numeric.zero Numeric.one Numeric.zero e.pitch
  let roll := about Numeric.one Numeric.zero Numeric.zero e.roll
  (yaw * pitch * roll).normalize

end Euler
end Strapdown
