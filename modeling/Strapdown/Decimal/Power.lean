/-! Powers with an exponent of either sign, for fractions of whole numbers. -/

namespace Strapdown.Decimal

/-- A power of a base, which is one where the exponent is negative. -/
def power (base : Nat) (exponent : Int) : Nat := Nat.pow base exponent.toNat

end Strapdown.Decimal
