/-
Closed intervals with floating point bounds. A bound may be infinite, so an interval can hold no
information at all, and no interval is empty. Every operation rounds each bound of its result to
the nearest number.
-/
import BranchBound.Binary.Arithmetic
import BranchBound.Decimal.Notation

namespace BranchBound

/-- The closed interval between two bounds. -/
structure Interval (f : Format) where
  lb : Binary f
  ub : Binary f
  deriving DecidableEq

namespace Interval

variable {f : Format}

/-- The bounds are numbers in order. -/
def Valid (a : Interval f) : Prop := a.lb ≤ a.ub

instance (a : Interval f) : Decidable a.Valid := inferInstanceAs (Decidable (a.lb ≤ a.ub))

/-- Why an interval cannot be formed. -/
inductive Fault where
  /-- The bounds are out of order, or one of them is no number. -/
  | unordered
  /-- The factor of a scaling is no number. -/
  | scaledByNaN
  deriving DecidableEq

def Fault.message : Fault → String
  | unordered => "Invalid interval: lb must be less than or equal to ub and neither may be NaN"
  | scaledByNaN => "Cannot scale an interval by NaN"

/-! ## Forming intervals -/

/-- The interval between two bounds, if they are in order. -/
def ofBounds? (lb ub : Binary f) : Option (Interval f) :=
  if lb ≤ ub then some ⟨lb, ub⟩ else none

theorem ofBounds?_eq_some_iff {lb ub : Binary f} {a : Interval f} :
    ofBounds? lb ub = some a ↔ a.Valid ∧ a = ⟨lb, ub⟩ := by
  unfold ofBounds? Valid
  split
  · rename_i h
    constructor
    · intro e
      cases e
      exact ⟨h, rfl⟩
    · rintro ⟨_, rfl⟩
      rfl
  · rename_i h
    constructor
    · intro e
      cases e
    · rintro ⟨valid, rfl⟩
      exact absurd valid h

/-- The interval between two bounds, which have to be in order. -/
def ofBounds (lb ub : Binary f) : Except Fault (Interval f) :=
  if lb ≤ ub then .ok ⟨lb, ub⟩ else .error .unordered

/-- The interval that holds one number. -/
def point (x : Binary f) : Except Fault (Interval f) := ofBounds x x

/-- The interval without bounds. -/
def entire : Interval f := ⟨.negInfinity, .infinity⟩

/-! ## Measures -/

def isUnbounded (a : Interval f) : Bool := a.lb.isInfinite || a.ub.isInfinite

/-- Whether the two bounds are the same number. -/
def isDegenerate (a : Interval f) : Bool := a.lb.equals a.ub

/-- The distance of the bounds, infinite for an unbounded interval. -/
def diameter (a : Interval f) : Binary f := if a.isUnbounded then .infinity else a.ub - a.lb

/-- The midpoint. Without bounds it is zero, and with one bound the finite number farthest from
it. The bounds are halved before they are added, so that the sum stays finite. -/
def midpoint (a : Interval f) : Binary f :=
  match a.lb.isInfinite, a.ub.isInfinite with
  | true, true => .zero
  | true, false => .least
  | false, true => .greatest
  | false, false => a.lb / (.one + .one) + a.ub / (.one + .one)

/-! ## Relations -/

/-- Whether a number lies in the interval. -/
def contains (a : Interval f) (x : Binary f) : Bool := decide (a.lb ≤ x) && decide (x ≤ a.ub)

/-- Whether the interval contains all of another one. -/
def containsInterval (a b : Interval f) : Bool := decide (a.lb ≤ b.lb) && decide (b.ub ≤ a.ub)

/-- Whether the bounds are the same numbers. -/
def equals (a b : Interval f) : Bool := a.lb.equals b.lb && a.ub.equals b.ub

/-- The order by lower bounds and, where those are equal, by upper bounds. -/
def compare? (a b : Interval f) : Option Ordering :=
  match a.lb.compare? b.lb with
  | some .eq => a.ub.compare? b.ub
  | other => other

/-! ## Operations -/

/-- The numbers in both intervals, if there are any. -/
def intersection (a b : Interval f) : Option (Interval f) :=
  ofBounds? (a.lb.max b.lb) (a.ub.min b.ub)

/-- The smallest interval that contains both. -/
def hull (a b : Interval f) : Interval f := ⟨a.lb.min b.lb, a.ub.max b.ub⟩

/-- The sums of numbers from both. Where opposite infinities meet a bound is lost, and the sum is
unbounded on that side. -/
protected def add (a b : Interval f) : Interval f :=
  let lb := a.lb + b.lb
  let ub := a.ub + b.ub
  ⟨if lb.isNaN then .negInfinity else lb, if ub.isNaN then .infinity else ub⟩

instance : Add (Interval f) := ⟨Interval.add⟩

/-- The negated numbers of an interval. -/
protected def neg (a : Interval f) : Interval f := ⟨-a.ub, -a.lb⟩

instance : Neg (Interval f) := ⟨Interval.neg⟩

/-- The differences of numbers from both. -/
protected def sub (a b : Interval f) : Interval f := a + -b

instance : Sub (Interval f) := ⟨Interval.sub⟩

/-- The product of two bounds, where zero times infinity is zero. -/
def boundProduct (x y : Binary f) : Binary f := if x.isZero || y.isZero then .zero else x * y

/-- The products of numbers from both: the hull of the four products of bounds. -/
protected def mul (a b : Interval f) : Interval f :=
  let first := boundProduct a.lb b.lb
  let others := [boundProduct a.lb b.ub, boundProduct a.ub b.lb, boundProduct a.ub b.ub]
  ⟨others.foldl Binary.min first, others.foldl Binary.max first⟩

instance : Mul (Interval f) := ⟨Interval.mul⟩

/-- The multiples of an interval's numbers by a factor, which has to be a number. -/
def scale (a : Interval f) (factor : Binary f) : Except Fault (Interval f) :=
  if factor.isNaN then .error .scaledByNaN
  else
    let x := boundProduct a.lb factor
    let y := boundProduct a.ub factor
    ofBounds (x.min y) (x.max y)

/-! ## Text -/

/-- The two bounds between brackets. -/
def text (layout : Layout) (a : Interval f) : String :=
  "[" ++ a.lb.text layout ++ ", " ++ a.ub.text layout ++ "]"

end Interval

end BranchBound
