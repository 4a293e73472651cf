import Strapdown.Attitude.Error

/-!
Propagation of attitude by angular velocity, and of a reference attitude together with its estimate.
-/

namespace Strapdown
variable {S : Type} [Numeric S]

/-- The attitude after turning at a constant body rate for a time step. -/
def Quaternion.integrate (q : Quaternion S) (rate : Vec3 S) (dt : S) : Quaternion S :=
  (q * Quaternion.exp (rate.scale dt)).normalize

/-- The reference attitude and the one estimated from measured rates. -/
structure Propagation (S : Type) where
  truth : Quaternion S
  estimate : Quaternion S
deriving DecidableEq

namespace Propagation

/-- Both attitudes start together. -/
def start (q : Quaternion S) : Propagation S := ⟨q, q⟩

def advance (p : Propagation S) (trueRate measuredRate : Vec3 S) (dt : S) : Propagation S :=
  ⟨p.truth.integrate trueRate dt, p.estimate.integrate measuredRate dt⟩

/-- The angle between the two attitudes. -/
def drift (p : Propagation S) : S := (p.truth.errorTo p.estimate).norm

end Propagation
end Strapdown
