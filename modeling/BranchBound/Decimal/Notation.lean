/-
Written numbers. A layout decides where positional notation ends and how a whole number closes;
two layouts are in use, one for reading and one that shows that a number is a floating point one.
-/
import BranchBound.Decimal.Shortest

namespace BranchBound

/-- How the decimal of a number is laid out. -/
structure Layout where
  /-- Whether a number whose first digit stands for this power of ten is written without an
  exponent. -/
  isPositional : Int → Bool
  /-- What closes a whole number that is written without an exponent. -/
  wholeEnding : String

namespace Layout

/-- Numbers for reading: never an exponent, and whole numbers without a point. -/
def plain : Layout := ⟨fun _ => true, ""⟩

/-- Numbers that show their type: whole numbers keep a point, and an exponent is written from
`10 ^ 16` on and below `10 ^ (-4)`. -/
def typed : Layout := ⟨fun power => decide (-4 ≤ power ∧ power < 16), ".0"⟩

end Layout

namespace Decimal

/-- Digits with a point behind the first `places` of them; missing places are zeros. -/
def positional (layout : Layout) (digits : List Char) (places : Int) : String :=
  if places ≤ 0 then
    "0." ++ String.ofList (List.replicate (-places).toNat '0' ++ digits)
  else if digits.length ≤ places.toNat then
    String.ofList (digits ++ List.replicate (places.toNat - digits.length) '0')
      ++ layout.wholeEnding
  else
    String.ofList (digits.take places.toNat) ++ "." ++ String.ofList (digits.drop places.toNat)

/-- Digits with a point behind the first of them and the power of ten that it stands for. -/
def scientific (digits : List Char) (power : Int) : String :=
  let fraction := digits.drop 1
  String.ofList (digits.take 1) ++ (if fraction.isEmpty then "" else "." ++ String.ofList fraction)
    ++ "e" ++ power.repr

/-- A decimal in a layout. -/
def text (layout : Layout) (d : Decimal) : String :=
  let digits := Nat.toDigits 10 d.digits
  let places := digits.length + d.exponent
  if layout.isPositional (places - 1) then positional layout digits places
  else scientific digits (places - 1)

end Decimal

namespace Binary

variable {f : Format}

def text (layout : Layout) : Binary f → String
  | nan => "NaN"
  | number negative code _ =>
    (if negative then "-" else "") ++
      if code = f.infinityCode then "inf"
      else if code = 0 then "0" ++ layout.wholeEnding
      else (f.shortest code).text layout

/-! ## Numbers where the layouts turn -/

section Turns

private def double (bits : Nat) : Binary .binary64 := ofBits bits

example : (double 0x3fb999999999999a).text .plain = "0.1" := by decide +kernel

example : (double 0x44b52d02c7e14af6).text .plain = "100000000000000000000000" := by
  decide +kernel

example : (double 0x4341c37937e08000).text .typed = "1e16" := by decide +kernel

example : (double 0x4341c37937e07fff).text .typed = "9999999999999998.0" := by decide +kernel

example : (double 0x3f1a36e2eb1c432d).text .typed = "0.0001" := by decide +kernel

example : (double 0x3f1a36e2eb1c432c).text .typed = "9.999999999999999e-5" := by decide +kernel

example : (double 1).text .typed = "5e-324" := by decide +kernel

example : (signedZero true : Binary .binary64).text .typed = "-0.0" := by decide +kernel

example : (negInfinity : Binary .binary32).text .plain = "-inf" := by decide +kernel

end Turns

end Binary

end BranchBound
