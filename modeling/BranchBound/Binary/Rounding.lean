/-
Rounding to the numbers of a format. `Format.nearestCode` rounds a quotient of naturals, taken in
units of the format, to the nearest magnitude code, halves to the even code. Every operation on
floating point numbers computes its exact result as such a quotient and rounds it once here.
-/
import BranchBound.Binary.Basic

namespace BranchBound

/-- The natural number nearest to `num / den`; a half goes to the even neighbour. -/
def nearestEven (num den : Nat) : Nat :=
  if 2 * (num % den) < den then num / den
  else if den < 2 * (num % den) then num / den + 1
  else num / den + num / den % 2

namespace Format

variable (f : Format)

/-- The magnitude code nearest to `num / den` units. Up to two full significands a code counts
units; above, the quotient is first divided by the power of two that leaves one bit more than the
fraction holds. A carry out of the significand is a carry into the exponent field, and whatever
lies beyond the largest finite number is infinite. -/
def nearestCode (num den : Nat) : Nat :=
  let doublings := (num / den).log2 - f.fractionBits
  min (doublings * 2 ^ f.fractionBits + nearestEven num (den * 2 ^ doublings)) f.infinityCode

theorem nearestCode_le (num den : Nat) : f.nearestCode num den ≤ f.infinityCode :=
  Nat.min_le_right ..

end Format

namespace Binary

variable {f : Format}

/-- The number nearest to `num / den` units, with the sign given. -/
def ofUnits (negative : Bool) (num den : Nat) : Binary f :=
  number negative (f.nearestCode num den) (f.nearestCode_le num den)

/-- The number nearest to `digits · 10 ^ exponent`, with the sign given. -/
def ofDecimal (negative : Bool) (digits : Nat) (exponent : Int) : Binary f :=
  ofUnits negative (digits * 10 ^ exponent.toNat * 2 ^ f.unitScale) (10 ^ (-exponent).toNat)

/-- The number of another format nearest to a value. -/
def convert {g : Format} : Binary f → Binary g
  | nan => nan
  | number negative code _ =>
    if code = f.infinityCode then signedInfinity negative
    else ofUnits negative (f.units code * 2 ^ g.unitScale) (2 ^ f.unitScale)

end Binary

end BranchBound
