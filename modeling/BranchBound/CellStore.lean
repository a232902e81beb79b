/-
The store of pending cells. A cell put into the store gets a handle and a sequence number. The
handle names its slot; a slot given back is used again by the next insertion, the last one given
back first. Sequence numbers only grow, also across a clearing, so they order all insertions.
-/
import BranchBound.Cell
import BranchBound.Counter
import BranchBound.Index
import BranchBound.Room

namespace BranchBound

/-- A cell with the sequence number of its insertion. -/
structure Stored (f : Format) where
  cell : Cell f
  seq : Nat
  deriving DecidableEq

/-- A pending cell with its handle and the sequence number of its insertion. -/
structure Pending (f : Format) where
  handle : CellHandle
  cell : Cell f
  seq : Nat
  deriving DecidableEq

/-- The pending cells by handle. -/
structure CellStore (f : Format) where
  /-- The slots ever used since the last clearing. -/
  slots : Array (Option (Stored f)) := #[]
  /-- The slots given back, the last one first. -/
  free : List Nat := []
  size : Nat := 0
  /-- The sequence number of the next insertion. -/
  nextSeq : Nat := 0
  deriving DecidableEq

namespace CellStore

variable {f : Format}

/-- What goes wrong in a store whose free slots are not free. -/
inductive Fault where
  /-- A slot given back holds a cell. -/
  | occupied (slot : Nat)
  deriving DecidableEq

def Fault.message : Fault → String
  | occupied slot => "called `CellArena::insert` with an occupied free slot " ++ slot.repr

def empty : CellStore f where

/-- The bytes of a cell in whole words. Its region takes the number of the components and four of
them; then there are the estimate, the weight, the snapshot and the depth. -/
def cellBytes (f : Format) : Nat :=
  let region := 8 + 4 * (2 * f.bytes)
  (region + 2 * f.bytes + f.bytes + f.bytes + 4 + 7) / 8 * 8

/-- The bytes of a slot: a word that tells whether it is free, the sequence number and the cell. -/
def slotBytes (f : Format) : Nat := 8 + 8 + cellBytes f

example : slotBytes .binary64 = 128 ∧ slotBytes .binary32 = 80 := by decide

/-- The store without cells, if there is room for so many slots. -/
def withRoom (slots : Nat) : Except Room.Fault (CellStore f) := do
  Room.reserve slots (slotBytes f)
  return empty

def isEmpty (s : CellStore f) : Bool := s.size == 0

/-- One more than the largest handle in use since the last clearing. -/
def handleBound (s : CellStore f) : Nat := s.slots.size

/-- The cell behind a handle, with its sequence number. -/
def stored? (s : CellStore f) (h : CellHandle) : Option (Stored f) := s.slots[h.val]?.join

def get? (s : CellStore f) (h : CellHandle) : Option (Cell f) := (s.stored? h).map (·.cell)

def seq? (s : CellStore f) (h : CellHandle) : Option Nat := (s.stored? h).map (·.seq)

def contains (s : CellStore f) (h : CellHandle) : Bool := (s.stored? h).isSome

/-- The pending cells in the order of their handles. -/
def pending (s : CellStore f) : List (Pending f) :=
  s.slots.toList.zipIdx.filterMap fun (slot, index) =>
    slot.map fun stored => ⟨⟨index⟩, stored.cell, stored.seq⟩

/-- Puts a cell into the slot given back last, or into a new one. -/
def insert (s : CellStore f) (cell : Cell f) : Except Fault (CellStore f × CellHandle) :=
  let stored : Stored f := ⟨cell, s.nextSeq⟩
  let counted := { s with size := s.size + 1, nextSeq := Counter.raise s.nextSeq 1 }
  match s.free with
  | [] => .ok ({ counted with slots := s.slots.push (some stored) }, ⟨s.slots.size⟩)
  | slot :: free =>
    if s.contains ⟨slot⟩ then .error (.occupied slot)
    else
      .ok ({ counted with slots := s.slots.setIfInBounds slot (some stored), free := free }, ⟨slot⟩)

/-- Takes the cell behind a handle out and gives its slot back. -/
def remove (s : CellStore f) (h : CellHandle) : Option (Cell f × CellStore f) :=
  (s.stored? h).map fun stored =>
    (stored.cell, { s with
      slots := s.slots.setIfInBounds h.val none
      free := h.val :: s.free
      size := s.size - 1 })

/-- The store without the cell behind a handle, if there is one. -/
def erase (s : CellStore f) (h : CellHandle) : CellStore f :=
  match s.remove h with
  | some (_, s') => s'
  | none => s

/-- The store without its cells; sequence numbers go on. -/
def clear (s : CellStore f) : CellStore f := { s with slots := #[], free := [], size := 0 }

end CellStore

end BranchBound
