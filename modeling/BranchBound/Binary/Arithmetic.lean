/-
Arithmetic on floating point numbers: each operation rounds the exact result once, and infinities,
signed zeros and values that are no number follow the rules of the binary formats.
-/
import BranchBound.Binary.Rounding

namespace BranchBound.Binary

variable {f : Format}

protected def neg : Binary f → Binary f
  | nan => nan
  | number negative code h => number (!negative) code h

instance : Neg (Binary f) := ⟨Binary.neg⟩

/-- Turning the sign turns the place. -/
theorem place_neg (a : Binary f) : (-a).place = a.place.map (-·) := by
  cases a with
  | nan => rfl
  | number negative code bounded =>
    show some _ = some _
    cases negative
    · rfl
    · exact congrArg some (Int.neg_neg _).symm

/-- The sum. Opposite infinities have none; a sum of exactly zero is positive unless both terms
are negative. -/
protected def add : Binary f → Binary f → Binary f
  | nan, _ => nan
  | number .., nan => nan
  | number n c _, number m d _ =>
    if c = f.infinityCode then
      if d = f.infinityCode ∧ n ≠ m then nan else signedInfinity n
    else if d = f.infinityCode then signedInfinity m
    else
      let total := f.signedUnits n c + f.signedUnits m d
      if total = 0 then signedZero (n && m)
      else ofUnits (decide (total < 0)) total.natAbs 1

instance : Add (Binary f) := ⟨Binary.add⟩

/-- The difference, the sum with the second term negated. -/
protected def sub (a b : Binary f) : Binary f := a + -b

instance : Sub (Binary f) := ⟨Binary.sub⟩

/-- The product. Zero times infinity is none. -/
protected def mul : Binary f → Binary f → Binary f
  | nan, _ => nan
  | number .., nan => nan
  | number n c _, number m d _ =>
    if c = f.infinityCode ∨ d = f.infinityCode then
      if c = 0 ∨ d = 0 then nan else signedInfinity (n != m)
    else ofUnits (n != m) (f.units c * f.units d) (2 ^ f.unitScale)

instance : Mul (Binary f) := ⟨Binary.mul⟩

/-- The quotient. Zero by zero and infinity by infinity are none; any other number by zero is
infinite. -/
protected def div : Binary f → Binary f → Binary f
  | nan, _ => nan
  | number .., nan => nan
  | number n c _, number m d _ =>
    if c = f.infinityCode then
      if d = f.infinityCode then nan else signedInfinity (n != m)
    else if d = f.infinityCode then signedZero (n != m)
    else if d = 0 then
      if c = 0 then nan else signedInfinity (n != m)
    else ofUnits (n != m) (f.units c * 2 ^ f.unitScale) (f.units d)

instance : Div (Binary f) := ⟨Binary.div⟩

end BranchBound.Binary
