/-
Binary floating point numbers. A format fixes how many bits hold the fraction and how many the
exponent. A number of the format is either no number at all or a sign with a magnitude code: the
bits after the sign bit read as one natural number. Codes order magnitudes, infinity is the
largest code, and every finite code stands for a natural number of units, the unit being the
least positive number of the format.
-/
namespace BranchBound

/- Powers of natural numbers are those of `Nat.pow`, whatever other powers are in scope. -/
attribute [scoped instance (high)] instPowNat

/-- A binary interchange format: the widths of its two fields behind the sign bit. -/
structure Format where
  /-- Bits that hold the fraction. -/
  fractionBits : Nat
  /-- Bits that hold the biased exponent. -/
  exponentBits : Nat
  /-- There is room for subnormal numbers, normal numbers and infinity. -/
  two_le_exponentBits : 2 ≤ exponentBits := by decide
  /-- There is room for a fraction beside infinity, which marks the values that are no number. -/
  fractionBits_pos : 0 < fractionBits := by decide

namespace Format

def binary64 : Format where
  fractionBits := 52
  exponentBits := 11

def binary32 : Format where
  fractionBits := 23
  exponentBits := 8

variable (f : Format)

def width : Nat := 1 + f.exponentBits + f.fractionBits

def bytes : Nat := f.width / 8

/-- The magnitude code of infinity: an exponent field of ones and a fraction of zeros. -/
def infinityCode : Nat := (2 ^ f.exponentBits - 1) * 2 ^ f.fractionBits

/-- The magnitude code of one: the exponent field holds the bias and the fraction is zero. -/
def oneCode : Nat := (2 ^ (f.exponentBits - 1) - 1) * 2 ^ f.fractionBits

/-- The unit of the format is two to the power of minus this: 1074 for 64 bits, 149 for 32. -/
def unitScale : Nat := 2 ^ (f.exponentBits - 1) - 2 + f.fractionBits

/-- The units a magnitude code stands for. Below the first full significand the code counts units
itself; above, the exponent field says how often the significand is doubled. -/
def units (code : Nat) : Nat :=
  if code < 2 ^ f.fractionBits then code
  else (2 ^ f.fractionBits + code % 2 ^ f.fractionBits) * 2 ^ (code / 2 ^ f.fractionBits - 1)

/-- The units of a finite number, below zero if it is negative. -/
def signedUnits (negative : Bool) (code : Nat) : Int :=
  if negative then -(f.units code : Int) else f.units code

theorem oneCode_le_infinityCode : f.oneCode ≤ f.infinityCode :=
  Nat.mul_le_mul_right _ (Nat.sub_le_sub_right (Nat.pow_le_pow_right (by decide) (Nat.sub_le ..)) 1)

/-- Below the sign bit there is room for all numbers and the pattern that is none. -/
theorem infinityCode_lt : f.infinityCode + 2 ^ (f.fractionBits - 1) < 2 ^ (f.width - 1) := by
  have h : f.width - 1 = f.exponentBits + f.fractionBits := by unfold width; omega
  have hp := f.fractionBits_pos
  have hlt : 2 ^ (f.fractionBits - 1) < 2 ^ f.fractionBits :=
    Nat.pow_lt_pow_right (by decide) (by omega)
  have hle : 2 ^ f.fractionBits ≤ 2 ^ f.exponentBits * 2 ^ f.fractionBits :=
    Nat.le_mul_of_pos_left _ (Nat.two_pow_pos _)
  rw [h, Nat.pow_add, infinityCode, Nat.sub_mul, Nat.one_mul]
  omega

end Format

/-- A floating point number of the format `f`. All values that are no number are one value. -/
inductive Binary (f : Format) where
  | nan
  /-- A sign and a magnitude code, which is at most that of infinity. -/
  | number (negative : Bool) (code : Nat) (bounded : code ≤ f.infinityCode)
  deriving DecidableEq

namespace Binary

variable {f : Format}

/-! ## Particular numbers -/

def signedZero (negative : Bool) : Binary f := number negative 0 (Nat.zero_le _)

def signedInfinity (negative : Bool) : Binary f := number negative f.infinityCode (Nat.le_refl _)

def zero : Binary f := signedZero false

def one : Binary f := number false f.oneCode f.oneCode_le_infinityCode

def infinity : Binary f := signedInfinity false

def negInfinity : Binary f := signedInfinity true

def greatest : Binary f := number false (f.infinityCode - 1) (Nat.sub_le ..)

def least : Binary f := number true (f.infinityCode - 1) (Nat.sub_le ..)

/-! ## Kinds of numbers -/

def isNaN : Binary f → Bool
  | nan => true
  | number .. => false

def isInfinite : Binary f → Bool
  | nan => false
  | number _ code _ => code == f.infinityCode

/-- Whether the value is a number below infinity in magnitude. -/
def isFinite : Binary f → Bool
  | nan => false
  | number _ code _ => code != f.infinityCode

def isZero : Binary f → Bool
  | nan => false
  | number _ code _ => code == 0

/-! ## Order -/

/-- The place of a number in the order: its code, negated below zero. The two zeros share a
place and no number has none. -/
def place : Binary f → Option Int
  | nan => none
  | number negative code _ => some (if negative then -(code : Int) else code)

/-- The numeric comparison; nothing compares with no number. -/
def compare? (a b : Binary f) : Option Ordering :=
  match a.place, b.place with
  | some x, some y => some (compare x y)
  | _, _ => none

instance : LE (Binary f) := ⟨fun a b => (a.compare? b).any Ordering.isLE = true⟩

instance : LT (Binary f) := ⟨fun a b => a.compare? b = some .lt⟩

instance (a b : Binary f) : Decidable (a ≤ b) :=
  inferInstanceAs (Decidable ((a.compare? b).any Ordering.isLE = true))

instance (a b : Binary f) : Decidable (a < b) :=
  inferInstanceAs (Decidable (a.compare? b = some .lt))

/-- Numeric equality: the two zeros are equal and no number differs from itself. -/
def equals (a b : Binary f) : Bool := a.compare? b == some .eq

theorem le_iff {a b : Binary f} :
    a ≤ b ↔ ∃ x y, a.place = some x ∧ b.place = some y ∧ x ≤ y := by
  show (a.compare? b).any Ordering.isLE = true ↔ _
  unfold compare?
  cases a.place <;> cases b.place <;> simp [Int.isLE_compare]

theorem lt_iff {a b : Binary f} :
    a < b ↔ ∃ x y, a.place = some x ∧ b.place = some y ∧ x < y := by
  show a.compare? b = some .lt ↔ _
  unfold compare?
  cases a.place <;> cases b.place <;> simp [Int.compare_eq_lt]

theorem equals_iff {a b : Binary f} :
    a.equals b = true ↔ ∃ x, a.place = some x ∧ b.place = some x := by
  unfold equals compare?
  cases a.place <;> cases b.place <;> simp
  exact eq_comm

/-- The comparison that takes incomparable values for equal. -/
def ordering (a b : Binary f) : Ordering := (a.compare? b).getD .eq

/-- The smaller of two values, or the one that is a number. Of two zeros it is the second. -/
protected def min (a b : Binary f) : Binary f :=
  if a.isNaN || decide (b ≤ a) then b else a

/-- The larger of two values, or the one that is a number. Of two zeros it is the second. -/
protected def max (a b : Binary f) : Binary f :=
  if a.isNaN || decide (a ≤ b) then b else a

/-! ## Bits -/

/-- The bits of a value, the sign bit first; no number is written with its quiet pattern. -/
def toBits : Binary f → Nat
  | nan => f.infinityCode + 2 ^ (f.fractionBits - 1)
  | number negative code _ => (if negative then 2 ^ (f.width - 1) else 0) + code

/-- The value that some bits stand for. Bits beyond the width of the format are dropped. -/
def ofBits (bits : Nat) : Binary f :=
  let code := bits % 2 ^ (f.width - 1)
  if h : code ≤ f.infinityCode then number (bits.testBit (f.width - 1)) code h else nan

/-- Bits say all about a value. -/
theorem ofBits_toBits (a : Binary f) : ofBits a.toBits = a := by
  have h := f.infinityCode_lt
  cases a with
  | nan =>
    have hq : (f.infinityCode + 2 ^ (f.fractionBits - 1)) % 2 ^ (f.width - 1)
        = f.infinityCode + 2 ^ (f.fractionBits - 1) := Nat.mod_eq_of_lt h
    have := Nat.two_pow_pos (f.fractionBits - 1)
    simp only [toBits, ofBits, hq]
    rw [dif_neg (by omega)]
  | number negative code bounded =>
    have hc : code < 2 ^ (f.width - 1) := by
      have := Nat.two_pow_pos (f.fractionBits - 1)
      omega
    cases negative
    · simp [toBits, ofBits, Nat.mod_eq_of_lt hc, bounded, Nat.testBit_lt_two_pow hc]
    · have hb : (2 ^ (f.width - 1) + code).testBit (f.width - 1) = true := by
        rw [Nat.testBit_two_pow_add_eq, Nat.testBit_lt_two_pow hc]; rfl
      simp [toBits, ofBits, Nat.mod_eq_of_lt hc, bounded, hb]

end Binary

end BranchBound
