/-
Statistics of a frontier: ten counters, each of which stops at the largest 64 bit number.
-/
import BranchBound.Counter
import BranchBound.View

namespace BranchBound

/-- What a frontier counts. -/
structure Statistics where
  pushed : Nat := 0
  popped : Nat := 0
  poppedFirst : Nat := 0
  poppedSecond : Nat := 0
  pruned : Nat := 0
  flushed : Nat := 0
  contractions : Nat := 0
  /-- Views ranked anew. -/
  reorders : Nat := 0
  /-- Updates of the best known bound. -/
  boundUpdates : Nat := 0
  /-- The most cells that were pending at once. -/
  highWater : Nat := 0
  deriving DecidableEq

namespace Statistics

/-- Counts a push after which so many cells are pending. -/
def countPush (s : Statistics) (pending : Nat) : Statistics :=
  { s with pushed := Counter.raise s.pushed 1, highWater := max s.highWater pending }

/-- Counts a pop that a view supplied. -/
def countPop (s : Statistics) (view : View) : Statistics :=
  let s := { s with popped := Counter.raise s.popped 1 }
  match view with
  | .first => { s with poppedFirst := Counter.raise s.poppedFirst 1 }
  | .second => { s with poppedSecond := Counter.raise s.poppedSecond 1 }

def countContraction (s : Statistics) (discarded : Nat) : Statistics :=
  { s with
    contractions := Counter.raise s.contractions 1
    pruned := Counter.raise s.pruned discarded }

def countReorder (s : Statistics) : Statistics :=
  { s with reorders := Counter.raise s.reorders 1 }

def countBoundUpdate (s : Statistics) : Statistics :=
  { s with boundUpdates := Counter.raise s.boundUpdates 1 }

def countFlush (s : Statistics) (discarded : Nat) : Statistics :=
  { s with flushed := Counter.raise s.flushed discarded }

/-- The cells that are in and have not come out again, as far as the counters tell. -/
def live (s : Statistics) : Nat := s.pushed - s.popped - s.pruned - s.flushed

def text (s : Statistics) : String :=
  String.join (List.map (· ++ "\n")
    ["Tessel Frontier Statistics:",
     "  Cells pushed:         " ++ s.pushed.repr,
     "  Cells popped:         " ++ s.popped.repr,
     "    from first view:    " ++ s.poppedFirst.repr,
     "    from second view:   " ++ s.poppedSecond.repr,
     "  Cells pruned:         " ++ s.pruned.repr,
     "  Cells flushed:        " ++ s.flushed.repr,
     "  Contractions:         " ++ s.contractions.repr,
     "  Reorders:             " ++ s.reorders.repr,
     "  Bound updates:        " ++ s.boundUpdates.repr,
     "  High water:           " ++ s.highWater.repr])

end Statistics

end BranchBound
