import Strapdown.Numeric

/-! Vectors of three components, such as angular velocities and rotation vectors. -/

namespace Strapdown

@[ext]
structure Vec3 (S : Type) where
  x : S
  y : S
  z : S
deriving DecidableEq

namespace Vec3
variable {S T : Type}

def map (f : S → T) (v : Vec3 S) : Vec3 T := ⟨f v.x, f v.y, f v.z⟩

def toList (v : Vec3 S) : List S := [v.x, v.y, v.z]

variable [Numeric S]

def zero : Vec3 S := ⟨Numeric.zero, Numeric.zero, Numeric.zero⟩

instance : Add (Vec3 S) := ⟨fun u v => ⟨u.x + v.x, u.y + v.y, u.z + v.z⟩⟩

instance : Neg (Vec3 S) := ⟨map Neg.neg⟩

def scale (v : Vec3 S) (s : S) : Vec3 S := v.map (· * s)

def divide (v : Vec3 S) (s : S) : Vec3 S := v.map (· / s)

def isFinite (v : Vec3 S) : Bool := v.toList.all Numeric.isFinite

/-- The largest magnitude of a component. -/
def peak (v : Vec3 S) : S := (v.toList.map Numeric.abs).foldl Numeric.max Numeric.zero

def norm (v : Vec3 S) : S := Numeric.sqrt (v.x * v.x + v.y * v.y + v.z * v.z)

/-- The norm, measured relative to the largest component where the plain squares are too large. -/
def length (v : Vec3 S) : S :=
  if Numeric.isFinite v.norm || !v.isFinite then v.norm else (v.divide v.peak).norm * v.peak

@[simp] theorem add_x (u v : Vec3 S) : (u + v).x = u.x + v.x := rfl
@[simp] theorem add_y (u v : Vec3 S) : (u + v).y = u.y + v.y := rfl
@[simp] theorem add_z (u v : Vec3 S) : (u + v).z = u.z + v.z := rfl

end Vec3
end Strapdown
