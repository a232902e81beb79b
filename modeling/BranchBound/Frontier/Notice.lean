/-
Notices: what a frontier tells the monitors that watch it, event by event.
-/
import BranchBound.Cell
import BranchBound.Index
import BranchBound.Statistics

namespace BranchBound

/-- Something that happened to a frontier. -/
inductive Event (f : Format) where
  /-- A cell was put in. -/
  | push (handle : CellHandle) (cell : Cell f)
  /-- A view supplied a cell that is handed out now. -/
  | pop (view : View) (cell : Cell f)
  /-- A contraction discarded a cell, which the ranking of that view has dominated. -/
  | prune (cell : Cell f) (view : View) (threshold : Binary f)
  /-- The best known bound was replaced, and the frontier has been brought up to date. -/
  | bound (previous current : Binary f)
  /-- A view was ranked anew. -/
  | reorder (view : View)
  /-- All pending cells were discarded. -/
  | flush (discarded : Nat)
  deriving DecidableEq

/-- An event with the statistics of the frontier at that moment. -/
structure Notice (f : Format) where
  event : Event f
  statistics : Statistics
  deriving DecidableEq

/-- The notices of views that are ranked anew one after the other. -/
def Notice.reorders {f : Format} (statistics : Statistics) : List View → List (Notice f)
  | [] => []
  | view :: rest =>
    ⟨.reorder view, statistics.countReorder⟩ :: reorders statistics.countReorder rest

end BranchBound
