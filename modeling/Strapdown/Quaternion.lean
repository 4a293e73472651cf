import Strapdown.Vec3

/-!
Quaternions as attitudes. A unit quaternion turns body coordinates into reference coordinates, and
`q` and `-q` are the same attitude. Degenerate values (no length, or not a number) become the
identity when they are normalized.
-/

namespace Strapdown

@[ext]
structure Quaternion (S : Type) where
  w : S
  x : S
  y : S
  z : S
deriving DecidableEq

namespace Quaternion
variable {S T : Type}

def map (f : S → T) (q : Quaternion S) : Quaternion T := ⟨f q.w, f q.x, f q.y, f q.z⟩

def toList (q : Quaternion S) : List S := [q.w, q.x, q.y, q.z]

/-- The quaternion with a scalar and a vector part. -/
def ofParts (w : S) (v : Vec3 S) : Quaternion S := ⟨w, v.x, v.y, v.z⟩

/-- The vector part. -/
def vec (q : Quaternion S) : Vec3 S := ⟨q.x, q.y, q.z⟩

variable [Numeric S]

/-- No rotation. -/
def identity : Quaternion S := ⟨Numeric.one, Numeric.zero, Numeric.zero, Numeric.zero⟩

/-- The inverse of a unit quaternion. -/
def conjugate (q : Quaternion S) : Quaternion S := ⟨q.w, -q.x, -q.y, -q.z⟩

instance : Neg (Quaternion S) := ⟨map Neg.neg⟩

/-- The Hamilton product: `a * b` rotates by `b`, then by `a`. -/
instance : Mul (Quaternion S) where
  mul a b :=
    { w := a.w * b.w - a.x * b.x - a.y * b.y - a.z * b.z
      x := a.w * b.x + a.x * b.w + a.y * b.z - a.z * b.y
      y := a.w * b.y - a.x * b.z + a.y * b.w + a.z * b.x
      z := a.w * b.z + a.x * b.y - a.y * b.x + a.z * b.w }

def divide (q : Quaternion S) (s : S) : Quaternion S := q.map (· / s)

def isFinite (q : Quaternion S) : Bool := q.toList.all Numeric.isFinite

/-- The scalar product of the four components. -/
def dot (a b : Quaternion S) : S := (a.x * b.x + a.z * b.z) + (a.y * b.y + a.w * b.w)

def norm (q : Quaternion S) : S := Numeric.sqrt (q.dot q)

/-- The largest magnitude of a component. -/
def peak (q : Quaternion S) : S := (q.toList.map Numeric.abs).foldl Numeric.max Numeric.zero

/-- The norm, measured relative to the largest component where the plain squares are too large. -/
def length (q : Quaternion S) : S :=
  if Numeric.isFinite q.norm || !q.isFinite then q.norm else (q.divide q.peak).norm * q.peak

/-- Whether a length is too small, or too ill-defined, to divide by. -/
def degenerate (length : S) : Bool :=
  !Numeric.isFinite length || Numeric.lt length Numeric.negligible

/-- The unit quaternion of the same direction; the identity where there is no direction. -/
def normalize (q : Quaternion S) : Quaternion S :=
  if degenerate q.length then identity else q.divide q.length

/-- The one of `q` and `-q` whose rotation is at most half a turn. -/
def shortWay (q : Quaternion S) : Quaternion S := if Numeric.lt q.w Numeric.zero then -q else q

end Quaternion
end Strapdown
