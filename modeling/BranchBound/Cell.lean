/-
Cells: pending pieces of the search space together with what the search has noted about them.
-/
import BranchBound.Region

namespace BranchBound

/-- A region of the search space with its annotations. -/
structure Cell (f : Format) where
  region : Region f
  /-- An enclosure of the objective over the box. -/
  estimate : Interval f
  /-- How much the search wants to look here, whatever the objective says. -/
  weight : Binary f
  /-- The best known bound when the cell was made. -/
  snapshot : Binary f
  /-- How many branchings led to the cell. -/
  depth : Nat
  deriving DecidableEq

namespace Cell

variable {f : Format}

/-- The cell of a region about which nothing is known. -/
def ofRegion (region : Region f) : Cell f where
  region := region
  estimate := .entire
  weight := .zero
  snapshot := .infinity
  depth := 0

/-- Whether two cells agree numerically in all their fields. -/
def equals (a b : Cell f) : Bool :=
  a.region.equals b.region && a.estimate.equals b.estimate && a.weight.equals b.weight
    && a.snapshot.equals b.snapshot && a.depth == b.depth

/-- The cell for reading: its box, estimate, weight and depth. -/
def text (c : Cell f) : String :=
  c.region.text ++ " pf=" ++ c.estimate.text .plain ++ " pu=" ++ c.weight.text .plain
    ++ " depth=" ++ c.depth.repr

/-- The cell with all its fields by name. -/
def literal (c : Cell f) : String :=
  "Cell \x7b region: " ++ c.region.literal
    ++ ", bound_estimate: " ++ c.estimate.text .typed
    ++ ", heuristic_weight: " ++ c.weight.text .typed
    ++ ", bound_snapshot: " ++ c.snapshot.text .typed
    ++ ", depth: " ++ c.depth.repr ++ " \x7d"

end Cell

end BranchBound
