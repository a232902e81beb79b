/-
The shortest decimal of a floating point number: the fewest digits that read back as the same
number, and of those the nearest. All comparisons are between natural numbers, since every number
of a format is a whole multiple of a negative power of ten.
-/
import BranchBound.Binary.Basic

namespace BranchBound

/-- The decimal `digits · 10 ^ exponent`. -/
structure Decimal where
  digits : Nat
  exponent : Int
  deriving DecidableEq

namespace Decimal

/-- The number of decimal digits of `n`, counted upwards from `k` digits. -/
def digitCountFrom (k n : Nat) : Nat :=
  if 10 ^ k ≤ n then digitCountFrom (k + 1) n else k
termination_by n - k
decreasing_by
  have := Nat.lt_pow_self (n := k) (show 1 < 10 by decide)
  omega

/-- The number of decimal digits of `n`. Three binary digits in ten are a decimal digit that `n`
is sure to have, so the count starts there. -/
def digitCount (n : Nat) : Nat := digitCountFrom (n.log2 * 3 / 10) n

/-- The same decimal without zeros at the end of its digits. -/
def reduce (d : Decimal) : Decimal :=
  if h : d.digits ≠ 0 ∧ d.digits % 10 = 0 then reduce ⟨d.digits / 10, d.exponent + 1⟩ else d
termination_by d.digits
decreasing_by exact Nat.div_lt_self (Nat.pos_of_ne_zero h.1) (by decide)

end Decimal

namespace Format

variable (f : Format)

/-- The value of a code in multiples of `10 ^ (-unitScale)`. -/
def decimalUnits (code : Nat) : Nat := f.units code * 5 ^ f.unitScale

/-- Whether `n` multiples of `10 ^ (-unitScale)` round to the code: they lie between the midpoints
to its two neighbours, and a midpoint itself rounds to the even one. -/
def roundsTo (code n : Nat) : Bool :=
  let low := f.decimalUnits (code - 1) + f.decimalUnits code
  let high := f.decimalUnits code + f.decimalUnits (code + 1)
  if code % 2 = 0 then decide (low ≤ 2 * n) && decide (2 * n ≤ high)
  else decide (low < 2 * n) && decide (2 * n < high)

/-- The multiple of `step` that stands for the code on the grid of that step, if one does: of the
two around the value the one that rounds to the code, and of two such the nearer, the upper one
from halfway on. -/
def onGrid (code step : Nat) : Option Nat :=
  let value := f.decimalUnits code
  let below := value / step
  let above := below + 1
  match f.roundsTo code (below * step), f.roundsTo code (above * step) with
  | true, true => some (if 2 * (value % step) < step then below else above)
  | true, false => some below
  | false, true => some above
  | false, false => none

/-- The decimal of a code on the coarsest grid that has one, among those of step `10 ^ places` and
finer. On the grid of step one that is the exact value. -/
def coarsest (code : Nat) : Nat → Decimal
  | 0 => ⟨f.decimalUnits code, -f.unitScale⟩
  | places + 1 =>
    match f.onGrid code (10 ^ (places + 1)) with
    | some digits => ⟨digits, places + 1 - f.unitScale⟩
    | none => coarsest code places

/-- The shortest decimal of a finite magnitude code above zero. -/
def shortest (code : Nat) : Decimal :=
  (f.coarsest code (Decimal.digitCount (f.decimalUnits code) - 1)).reduce

end Format

end BranchBound
