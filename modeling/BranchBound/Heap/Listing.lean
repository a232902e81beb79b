/-
Listing a queue with any costs. A cost that is no number compares with nothing, and an entry with
such a cost comes before or behind another one by its sequence number alone, so precedence need not
be an order. Then there is no one list that is sorted, and the way of sorting decides.
-/
import BranchBound.Heap.Basic
import BranchBound.Sorting.Pivot

namespace BranchBound.Heap

variable {f : Format}

/-- Whether the costs of all entries are numbers. -/
def hasNumbers (q : Heap f) : Bool := q.entries.toList.all fun entry => !entry.cost.isNaN

/-- The entries sorted, as far as precedence is an order. -/
def listing (q : Heap f) : Except Sorting.Fault (List (HeapEntry f)) :=
  if q.hasNumbers then .ok q.sorted else Sorting.sort HeapEntry.precedes q.entries.toList

/-- A listing shows every entry once. -/
theorem listing_perm {q : Heap f} {entries : List (HeapEntry f)} (h : q.listing = .ok entries) :
    entries.Perm q.entries.toList := by
  unfold listing at h
  split at h
  · cases h
    exact Sorting.insertion_perm HeapEntry.precedes _
  · exact Sorting.permutes_sort HeapEntry.precedes h

end BranchBound.Heap
