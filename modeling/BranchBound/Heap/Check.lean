/-
Checking a queue: every handle stands where the table says, no entry has to come out before the
one above it, and the table says nothing else.
-/
import BranchBound.Heap.Basic

namespace BranchBound

/-- What can be wrong with a view of the pending cells. -/
inductive Defect where
  /-- A queued handle does not stand where the table says. -/
  | misplaced
  /-- An entry has to come out before the one above it. -/
  | unordered
  /-- The table says a slot for more handles than are queued. -/
  | strayPosition
  /-- A handle of one view is not in the other. -/
  | missingTwin
  /-- A queued handle has no cell. -/
  | noCell
  /-- There are pending cells that the only view does not have. -/
  | missingCells
  /-- The view has more or fewer handles than there are pending cells. -/
  | wrongSize
  deriving DecidableEq

def Defect.reason : Defect → String
  | misplaced => "position table does not match heap slot"
  | unordered => "heap order violated"
  | strayPosition => "position table tracks handles that are not queued"
  | missingTwin => "missing twin"
  | noCell => "queued handle has no cell"
  | missingCells => "pending cells missing from the view"
  | wrongSize => "view size differs from the number of pending cells"

/-- A defect with the handle at which it shows, if it shows at one. -/
structure Violation where
  handle : Option CellHandle
  defect : Defect
  deriving DecidableEq

namespace Heap

variable {f : Format}

/-- The defect that shows at a slot. -/
def violationAt? (q : Heap f) (entry : HeapEntry f) (slot : Nat) : Option Violation :=
  if q.position? entry.handle ≠ some slot then some ⟨some entry.handle, .misplaced⟩
  else if 0 < slot ∧ q.precedesAt slot (parent slot) then some ⟨some entry.handle, .unordered⟩
  else none

/-- The first defect of a queue. -/
def violation? (q : Heap f) : Option Violation :=
  match q.entries.toList.zipIdx.findSome? fun (entry, slot) => q.violationAt? entry slot with
  | some violation => some violation
  | none =>
    if q.positions.countP Option.isSome = q.entries.size then none
    else some ⟨none, .strayPosition⟩

end Heap

end BranchBound
