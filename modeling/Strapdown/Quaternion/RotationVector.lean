import Strapdown.Quaternion

/-!
Rotation vectors, whose direction is the axis of a rotation and whose length is its angle, and the
maps between them and attitudes: `exp` takes a rotation vector to its unit quaternion and `log`
takes an attitude to its shortest rotation vector.
-/

namespace Strapdown.Quaternion
variable {S : Type} [Numeric S]

/-- The rotation by a rotation vector. Below the negligible length its first order stands in. -/
def exp (rotation : Vec3 S) : Quaternion S :=
  let angle := rotation.length
  if degenerate angle then
    (ofParts Numeric.one (rotation.scale Numeric.half)).normalize
  else
    let halfAngle := angle * Numeric.half
    ofParts (Numeric.cos halfAngle) (rotation.scale (Numeric.sin halfAngle / angle))

/-- The rotation about an axis of any length; an axis without direction gives no rotation. -/
def ofAxisAngle (axis : Vec3 S) (angle : S) : Quaternion S :=
  let length := axis.length
  if degenerate length then identity
  else
    let halfAngle := angle * Numeric.half
    ofParts (Numeric.cos halfAngle) ((axis.divide length).scale (Numeric.sin halfAngle))

/-- The shortest rotation vector of an attitude, at most half a turn long. -/
def log (q : Quaternion S) : Vec3 S :=
  let unit := q.normalize.shortWay
  let sine := unit.vec.norm
  if Numeric.lt sine Numeric.negligible then unit.vec.scale Numeric.two
  else unit.vec.scale (Numeric.two * Numeric.atan2 sine unit.w / sine)

end Strapdown.Quaternion
