/-
A priority queue of cell handles: a binary heap in an array, beside which a table tells for every
handle the slot where it stands. The table is kept through every exchange of two slots, so that a
handle can be taken out of the middle of the queue.
-/
import BranchBound.Binary.Basic
import BranchBound.Index
import BranchBound.Sorting.Insertion

namespace BranchBound

/-- A queued handle. -/
structure HeapEntry (f : Format) where
  /-- Entries of less cost come first. -/
  cost : Binary f
  /-- Entries of equal cost come in this order. -/
  seq : Nat
  handle : CellHandle
  deriving DecidableEq

/-- Whether an entry has to come out before another one. -/
def HeapEntry.precedes {f : Format} (a b : HeapEntry f) : Bool :=
  match a.cost.compare? b.cost with
  | some .lt => true
  | some .gt => false
  | _ => decide (a.seq < b.seq)

/-- A queue of handles. -/
structure Heap (f : Format) where
  /-- The slots; slot `i` is the parent of the slots `2 * i + 1` and `2 * i + 2`. -/
  entries : Array (HeapEntry f) := #[]
  /-- For every handle the slot where it stands, if it is queued. -/
  positions : Array (Option Nat) := #[]
  deriving DecidableEq

namespace Heap

variable {f : Format}

/-- How a handle can be queued twice. -/
inductive Fault where
  /-- A handle to be queued is queued already. -/
  | queued (h : CellHandle)
  /-- Two entries of a rebuilt queue have one handle. -/
  | duplicate (h : CellHandle)
  deriving DecidableEq

def Fault.message : Fault → String
  | queued h => "called `IndexedHeap::push` with " ++ h.text ++ " which is already queued"
  | duplicate h => "called `IndexedHeap::rebuild` with duplicate handle " ++ h.text

/-! ## The table of positions -/

/-- The slot of a handle in a table. -/
def positionIn (positions : Array (Option Nat)) (h : CellHandle) : Option Nat :=
  positions[h.val]?.join

/-- The table with the slot of a handle written; it grows where the handle lies beyond its end. -/
def record (positions : Array (Option Nat)) (h : CellHandle) (slot : Nat) : Array (Option Nat) :=
  if h.val < positions.size then positions.setIfInBounds h.val (some slot)
  else (positions ++ Array.replicate (h.val - positions.size) none).push (some slot)

/-! ## Looking -/

/-- The queue without handles. -/
def empty : Heap f where

def size (q : Heap f) : Nat := q.entries.size

/-- The slot where a handle stands. -/
def position? (q : Heap f) (h : CellHandle) : Option Nat := positionIn q.positions h

def contains (q : Heap f) (h : CellHandle) : Bool := (q.position? h).isSome

/-- The cost by which a handle is queued. -/
def cost? (q : Heap f) (h : CellHandle) : Option (Binary f) := do
  let slot ← q.position? h
  let entry ← q.entries[slot]?
  return entry.cost

/-- The entry at the front. -/
def peek? (q : Heap f) : Option (HeapEntry f) := q.entries[0]?

/-- The handles in the order of their slots. -/
def handles (q : Heap f) : List CellHandle := q.entries.toList.map (·.handle)

/-! ## Restoring the order -/

/-- The slot above. -/
def parent (slot : Nat) : Nat := (slot - 1) / 2

/-- Whether the entry of one slot has to come out before that of another. -/
def precedesAt (q : Heap f) (i j : Nat) : Bool :=
  match q.entries[i]?, q.entries[j]? with
  | some a, some b => a.precedes b
  | _, _ => false

/-- The queue with the entries of two slots exchanged. -/
def exchange (q : Heap f) (i j : Nat) : Heap f :=
  match q.entries[i]?, q.entries[j]? with
  | some a, some b =>
    { entries := (q.entries.setIfInBounds i b).setIfInBounds j a
      positions :=
        (q.positions.setIfInBounds b.handle.val (some i)).setIfInBounds a.handle.val (some j) }
  | _, _ => q

@[simp]
theorem size_exchange (q : Heap f) (i j : Nat) :
    (q.exchange i j).entries.size = q.entries.size := by
  unfold exchange
  split <;> simp

/-- Lets the entry of a slot rise while it has to come out before the one above. -/
def siftUp (q : Heap f) (slot : Nat) : Heap f :=
  if _h : 0 < slot then
    if q.precedesAt slot (parent slot) then (q.exchange slot (parent slot)).siftUp (parent slot)
    else q
  else q
termination_by slot
decreasing_by unfold parent; omega

/-- The slot below whose entry has to come out first, the left one if neither has to. -/
def firstChild (q : Heap f) (slot : Nat) : Nat :=
  if q.precedesAt (2 * slot + 2) (2 * slot + 1) then 2 * slot + 2 else 2 * slot + 1

theorem lt_firstChild (q : Heap f) (slot : Nat) : slot < q.firstChild slot := by
  unfold firstChild
  split <;> omega

theorem lt_size_of_precedesAt {q : Heap f} {i j : Nat} (h : q.precedesAt i j = true) :
    i < q.entries.size := by
  unfold precedesAt at h
  split at h
  · rename_i hi _
    exact (Array.getElem?_eq_some_iff.1 hi).1
  · cases h

/-- Lets the entry of a slot sink while one below has to come out before it. -/
def siftDown (q : Heap f) (slot : Nat) : Heap f :=
  if _h : q.precedesAt (q.firstChild slot) slot = true then
    (q.exchange slot (q.firstChild slot)).siftDown (q.firstChild slot)
  else q
termination_by q.entries.size - slot
decreasing_by
  have := lt_firstChild q slot
  have := lt_size_of_precedesAt _h
  simp only [size_exchange]
  omega

/-- Restores the order in the slots below `count`, the last one first. -/
def heapify (q : Heap f) : Nat → Heap f
  | 0 => q
  | count + 1 => (q.siftDown count).heapify count

/-! ## Changing -/

/-- Queues a handle that is not queued yet. -/
def push (q : Heap f) (entry : HeapEntry f) : Except Fault (Heap f) :=
  if q.contains entry.handle then .error (.queued entry.handle)
  else
    let slot := q.entries.size
    .ok (siftUp ⟨q.entries.push entry, record q.positions entry.handle slot⟩ slot)

/-- Takes the entry of a slot out. The last entry fills the gap and travels from there either
way. -/
def removeAt (q : Heap f) (slot : Nat) : Heap f :=
  match q.entries[slot]?, q.entries.back? with
  | some removed, some last =>
    let positions := q.positions.setIfInBounds removed.handle.val none
    let entries := q.entries.pop
    if slot < entries.size then
      let filled : Heap f :=
        ⟨entries.setIfInBounds slot last, positions.setIfInBounds last.handle.val (some slot)⟩
      if 0 < slot ∧ filled.precedesAt slot (parent slot) then filled.siftUp slot
      else filled.siftDown slot
    else ⟨entries, positions⟩
  | _, _ => q

/-- The queue without its front. -/
def pop (q : Heap f) : Heap f := q.removeAt 0

/-- The queue without a handle. -/
def erase (q : Heap f) (h : CellHandle) : Heap f :=
  match q.position? h with
  | some slot => q.removeAt slot
  | none => q

/-- A table continued with the positions of more entries, the first of which stands at `slot`. -/
def tableFrom (positions : Array (Option Nat)) (slot : Nat) :
    List (HeapEntry f) → Except Fault (Array (Option Nat))
  | [] => .ok positions
  | entry :: rest =>
    if (positionIn positions entry.handle).isSome then .error (.duplicate entry.handle)
    else tableFrom (record positions entry.handle slot) (slot + 1) rest

/-- The queue of some entries, whose handles have to be different. -/
def ofEntries (entries : List (HeapEntry f)) : Except Fault (Heap f) :=
  (tableFrom #[] 0 entries).map fun positions =>
    heapify ⟨entries.toArray, positions⟩ (entries.length / 2)

/-! ## Listing -/

/-- The entries sorted, those of which neither has to come first in the order of their slots. -/
def sorted (q : Heap f) : List (HeapEntry f) :=
  Sorting.insertion HeapEntry.precedes q.entries.toList

/-- The handles in the order in which they come out, no more of them than a number given. -/
def drained (q : Heap f) : Nat → List CellHandle
  | 0 => []
  | limit + 1 =>
    match q.peek? with
    | some entry => entry.handle :: q.pop.drained limit
    | none => []

end Heap

end BranchBound
