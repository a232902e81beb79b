/-
The best known bound that several workers share. It only ever gets smaller, whoever offers what
and in which order. A bound is held and offered by its bits.
-/
import BranchBound.Decimal.Notation
import BranchBound.Binary.Rounding

namespace BranchBound

/-- The best known bound of a search. -/
structure Incumbent where
  /-- The bits of the bound. -/
  bits : UInt64
  deriving DecidableEq

namespace Incumbent

/-- What some bits stand for, which for many of them is no number. -/
def valueOf (bits : UInt64) : Binary .binary64 := .ofBits bits.toNat

/-- The bits of a value. -/
def bitsOf (value : Binary .binary64) : UInt64 := .ofNat value.toBits

theorem valueOf_bitsOf (value : Binary .binary64) : valueOf (bitsOf value) = value := by
  have hlt : value.toBits < UInt64.size := by
    cases value with
    | nan => decide
    | number negative code bounded =>
      have hcode : code ≤ 9218868437227405312 := bounded
      cases negative
      · show 0 + code < 18446744073709551616
        omega
      · show 9223372036854775808 + code < 18446744073709551616
        omega
  rw [valueOf, bitsOf, UInt64.toNat_ofNat_of_lt' hlt, Binary.ofBits_toBits]

/-- The bound. -/
def bound (i : Incumbent) : Binary .binary64 := valueOf i.bits

/-- No solution is known yet. -/
def none : Incumbent := ⟨bitsOf .infinity⟩

/-- Offers a bound, which is taken if it is smaller than the one so far or the one so far is no
number. Tells whether it was taken. -/
def tighten (i : Incumbent) (candidate : UInt64) : Incumbent × Bool :=
  if (valueOf candidate).isNaN then (i, false)
  else if i.bound ≤ valueOf candidate then (i, false)
  else (⟨candidate⟩, true)

/-- The bound as a number of another format. -/
def boundAs (f : Format) (i : Incumbent) : Binary f := i.bound.convert

/-- The bound by the name of what holds it. -/
def text (i : Incumbent) : String := "SharedBestBound(" ++ i.bound.text .plain ++ ")"

end Incumbent

end BranchBound
