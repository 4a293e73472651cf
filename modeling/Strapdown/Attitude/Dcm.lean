import Strapdown.Quaternion

/-!
Rotating vectors: by the quaternion itself and by its direction cosine matrix.
-/

namespace Strapdown

/-- A direction cosine matrix, by rows. -/
structure Dcm (S : Type) where
  row0 : Vec3 S
  row1 : Vec3 S
  row2 : Vec3 S
deriving DecidableEq

namespace Quaternion
variable {S : Type} [Numeric S]

/-- A vector in body coordinates, seen in reference coordinates. -/
def rotate (q : Quaternion S) (v : Vec3 S) : Vec3 S :=
  (q * ofParts Numeric.zero v * q.conjugate).vec

/-- A vector in reference coordinates, seen in body coordinates. -/
def rotateBack (q : Quaternion S) (v : Vec3 S) : Vec3 S :=
  (q.conjugate * ofParts Numeric.zero v * q).vec

/-- The matrix that rotates as the unit quaternion does. -/
def toDcm (q : Quaternion S) : Dcm S :=
  let twice (a : S) : S := Numeric.two * a
  let diagonal (a b : S) : S := Numeric.one - twice (a * a + b * b)
  { row0 := ⟨diagonal q.y q.z, twice (q.x * q.y - q.w * q.z), twice (q.x * q.z + q.w * q.y)⟩
    row1 := ⟨twice (q.x * q.y + q.w * q.z), diagonal q.x q.z, twice (q.y * q.z - q.w * q.x)⟩
    row2 := ⟨twice (q.x * q.z - q.w * q.y), twice (q.y * q.z + q.w * q.x), diagonal q.x q.y⟩ }

end Quaternion
end Strapdown
