import Strapdown.Vec3

/-!
Rate profiles: body rates that are each held for a number of steps, and places among those steps.
-/

namespace Strapdown

/-- A body rate that is held for a number of steps. -/
structure Leg (S : Type) where
  rate : Vec3 S
  steps : Nat
deriving DecidableEq

namespace Leg
variable {S : Type}

/-- The rate of every step, leg after leg. -/
def rates (legs : List (Leg S)) : List (Vec3 S) :=
  legs.flatMap fun leg => List.replicate leg.steps leg.rate

/-- The steps of all legs together. -/
def totalSteps : List (Leg S) → Nat
  | [] => 0
  | leg :: legs => leg.steps + totalSteps legs

theorem length_rates (legs : List (Leg S)) : (rates legs).length = totalSteps legs := by
  induction legs with
  | nil => rfl
  | cons leg legs ih =>
    rw [rates, List.flatMap_cons, List.length_append, List.length_replicate, ← rates, ih,
      totalSteps]

end Leg

/-- A leg, and how many of its steps have been taken. -/
structure Position where
  leg : Nat
  step : Nat
deriving DecidableEq

namespace Position
variable {S : Type}

def start : Position := ⟨0, 0⟩

/-- Moves on from legs whose steps have all been taken. -/
def settle (legs : List (Leg S)) (p : Position) : Position :=
  match h : legs[p.leg]? with
  | none => p
  | some leg => if leg.steps ≤ p.step then settle legs ⟨p.leg + 1, 0⟩ else p
termination_by legs.length - p.leg
decreasing_by
  have := (List.getElem?_eq_some_iff.1 h).1
  simp
  omega

end Position
end Strapdown
