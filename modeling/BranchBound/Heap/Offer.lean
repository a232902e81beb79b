/-
Handles from outside. The table of positions has a place for every handle up to the largest one in
it, and like the array of entries it asks for more room than it needs when it grows. For a handle
from the store of cells that is never too much, since the store has places for them too; a handle
that somebody else has chosen may be too large.
-/
import BranchBound.Heap.Basic
import BranchBound.Room

namespace BranchBound.Heap

variable {f : Format}

/-- Why a handle from outside is not queued. -/
inductive Refusal where
  /-- Handles are queued twice. -/
  | fault (cause : Fault)
  /-- The handle is the largest word, and no word counts the places up to it. -/
  | uncountable
  /-- There is no room for the entry or for the places up to the handle. -/
  | noRoom (cause : Room.Fault)
  deriving DecidableEq

def Refusal.message : Refusal → String
  | fault cause => cause.message
  | uncountable => "attempt to add with overflow"
  | noRoom cause => cause.message

/-- A queue with the room of its two arrays. They keep it when handles are taken out. -/
structure Roomy (f : Format) where
  queue : Heap f := .empty
  /-- The number of entries for which there is room. -/
  slots : Nat := 0
  /-- The number of handles for which there is room in the table. -/
  places : Nat := 0
  deriving DecidableEq

/-- The bytes of an entry: its cost, its sequence number and its handle, each in a word. -/
def entryBytes : Nat := 24

/-- The bytes of a place in the table. -/
def placeBytes : Nat := 8

/-- The room for so many entries. -/
def slotsFor (slots count : Nat) : Except Refusal Nat :=
  (Room.extend slots count entryBytes).mapError .noRoom

/-- The room of the table up to a handle. -/
def placesFor (places : Nat) (h : CellHandle) : Except Refusal Nat :=
  if h.val + 1 < UInt64.size then (Room.extend places (h.val + 1) placeBytes).mapError .noRoom
  else .error .uncountable

/-- The entries before the first whose handle is too large, and the room of the table after all of
them or why there is none. -/
def placeable (places : Nat) : List (HeapEntry f) → List (HeapEntry f) × Except Refusal Nat
  | [] => ([], .ok places)
  | entry :: rest =>
    match placesFor places entry.handle with
    | .ok places => (entry :: (placeable places rest).1, (placeable places rest).2)
    | .error refusal => ([], .error refusal)

namespace Roomy

/-- The same room for another queue. -/
def refill (r : Roomy f) (queue : Heap f) : Roomy f := { r with queue }

/-- Queues a handle from outside. -/
def offer (r : Roomy f) (entry : HeapEntry f) : Except Refusal (Roomy f) :=
  if r.queue.contains entry.handle then .error (.fault (.queued entry.handle))
  else do
    let slots ← slotsFor r.slots (r.queue.size + 1)
    let places ← placesFor r.places entry.handle
    let queue ← (r.queue.push entry).mapError .fault
    return { queue, slots, places }

/-- The queue of other entries from outside. They are looked at in order, so handles that are queued
twice before the first one that is too large count first. -/
def rebuild (r : Roomy f) (entries : List (HeapEntry f)) : Except Refusal (Roomy f) := do
  let slots ← slotsFor r.slots entries.length
  let queue ← (ofEntries (placeable r.places entries).1).mapError .fault
  let places ← (placeable r.places entries).2
  return { queue, slots, places }

end Roomy

end BranchBound.Heap
