/-
Regions of the search space: axis-aligned boxes with one interval for each variable.
-/
import BranchBound.Interval
import BranchBound.Room

namespace BranchBound

/-- A box, given by the intervals of its variables in order. -/
structure Region (f : Format) where
  components : List (Interval f)
  deriving DecidableEq

namespace Region

variable {f : Format}

def Valid (r : Region f) : Prop := ∀ a ∈ r.components, a.Valid

instance (r : Region f) : Decidable r.Valid :=
  inferInstanceAs (Decidable (∀ a ∈ r.components, a.Valid))

/-- Why a box cannot be formed or has no such component. -/
inductive Fault where
  | interval (fault : Interval.Fault)
  /-- There is no component to read at the index. -/
  | noComponent (size index : Nat)
  /-- There is no component to replace at the index. -/
  | nothingToReplace (size index : Nat)
  deriving DecidableEq

def Fault.message : Fault → String
  | interval fault => fault.message
  | noComponent size index =>
    "index out of bounds: the len is " ++ size.repr ++ " but the index is " ++ index.repr
  | nothingToReplace size index =>
    "called `IntervalVector::set` with index out of bounds: the len is " ++ size.repr
      ++ " but the index is " ++ index.repr

/-! ## Forming boxes -/

/-- The box without bounds. -/
def entire (size : Nat) : Region f := ⟨List.replicate size .entire⟩

/-- The box without bounds, if there is room for its components. The number of their places is a
power of two, and each of them holds two numbers. -/
def entire? (size : Nat) : Except Room.Fault (Region f) := do
  Room.reserve size.nextPowerOfTwo (2 * f.bytes)
  return entire size

/-- The box between pairs of bounds, each of which has to be in order. -/
def ofBounds (bounds : List (Binary f × Binary f)) : Except Interval.Fault (Region f) := do
  return ⟨← bounds.mapM fun (lb, ub) => Interval.ofBounds lb ub⟩

/-- The box with more components behind its own. -/
def append (r : Region f) (more : List (Interval f)) : Region f := ⟨r.components ++ more⟩

/-! ## Components -/

def size (r : Region f) : Nat := r.components.length

def isEmpty (r : Region f) : Bool := r.components.isEmpty

/-- The component of a variable, if there is one. -/
def get? (r : Region f) (index : Nat) : Option (Interval f) := r.components[index]?

/-- The component of a variable, which has to be there. -/
def get (r : Region f) (index : Nat) : Except Fault (Interval f) :=
  match r.get? index with
  | some a => .ok a
  | none => .error (.noComponent r.size index)

/-- The box with the component of a variable replaced, which has to be there. -/
def set (r : Region f) (index : Nat) (a : Interval f) : Except Fault (Region f) :=
  if index < r.size then .ok ⟨r.components.set index a⟩
  else .error (.nothingToReplace r.size index)

/-! ## Measures -/

def diameters (r : Region f) : List (Binary f) := r.components.map Interval.diameter

/-- The largest diameter, zero for a box without variables. -/
def maxDiameter (r : Region f) : Binary f := r.diameters.foldl Binary.max .zero

/-- The product of the diameters, one for a box without variables. -/
def volume (r : Region f) : Binary f := r.diameters.foldl (· * ·) .one

/-- Keeps the widest component so far, an earlier one before an equal one. -/
def widerOf (best : Option (Nat × Binary f)) (candidate : Binary f × Nat) :
    Option (Nat × Binary f) :=
  match best with
  | some (index, diameter) =>
    if candidate.1 ≤ diameter then some (index, diameter) else some (candidate.2, candidate.1)
  | none => some (candidate.2, candidate.1)

/-- The first variable of the largest diameter, if there are variables. -/
def widest (r : Region f) : Option Nat := (r.diameters.zipIdx.foldl widerOf none).map (·.1)

/-! ## Operations -/

def scale (r : Region f) (factor : Binary f) : Except Interval.Fault (Region f) := do
  return ⟨← r.components.mapM (·.scale factor)⟩

def equals (r s : Region f) : Bool :=
  r.size == s.size && (r.components.zip s.components).all fun (a, b) => a.equals b

/-! ## Text -/

def text (r : Region f) : String :=
  "(" ++ " ; ".intercalate (r.components.map (·.text .plain)) ++ ")"

def literal (r : Region f) : String :=
  "[" ++ ", ".intercalate (r.components.map (·.text .typed)) ++ "]"

end Region

end BranchBound
