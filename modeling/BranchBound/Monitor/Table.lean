/-
The progress table of a search: a header, a line for every update of the best known bound and for
some of the pops, and a closing line for every flush. No clock is read. From one notice to the
next no time passes, so a line that waits for an interval to pass is due only if the interval is
zero, and the column of the elapsed time holds a mark.
-/
import BranchBound.Decimal.Notation
import BranchBound.Frontier.Notice
import BranchBound.Text.Columns

namespace BranchBound

/-- A progress table that is being written. -/
structure ProgressTable (f : Format) where
  /-- The milliseconds from one line to the next that is due by a pop. -/
  interval : Nat := 1000
  /-- A pop looks whether a line is due only if the number of pops has none of these bits. -/
  mask : Nat := 4095
  /-- Whether the header is written. -/
  hasHeader : Bool := false
  /-- The best known bound as far as the table was told. -/
  bestBound : Option (Binary f) := none
  deriving DecidableEq

namespace ProgressTable

variable {f : Format}

/-- The headings of the columns with their widths. -/
def columns : List (Nat × String) :=
  [(9, "Elapsed"), (12, "Pushed"), (12, "Popped"), (10, "Live"), (10, "High water"),
    (10, "Pruned"), (14, "Best bound")]

/-- What stands for the elapsed time. -/
def elapsedMark : String := "<elapsed>"

/-- A rule across the table. -/
def rule : String := String.ofList (List.replicate 96 '-')

/-- The fields of a line in the columns of the table. -/
def line (fields : List String) : String := Text.row ((columns.map (·.1)).zip fields)

/-- The header, if it is not written yet. -/
def header (t : ProgressTable f) : List String :=
  if t.hasHeader then [] else [line (columns.map (·.2)), rule]

/-- The best known bound as a field: a number, or the word for none yet. -/
def boundField (t : ProgressTable f) : String :=
  match t.bestBound with
  | some bound => if bound.isFinite then bound.text .plain else "Inf"
  | none => "Inf"

/-- The line that tells how far the search is. -/
def progress (t : ProgressTable f) (s : Statistics) : String :=
  line [elapsedMark, s.pushed.repr, s.popped.repr, s.live.repr, s.highWater.repr, s.pruned.repr,
    t.boundField]

/-- The line that tells of a flush. -/
def flushed (discarded : Nat) (s : Statistics) : String :=
  "Frontier flushed: " ++ discarded.repr ++ " cells discarded, " ++ s.popped.repr ++ " popped, "
    ++ s.pruned.repr ++ " pruned."

/-- Whether a pop writes a line. -/
def isDue (t : ProgressTable f) (s : Statistics) : Bool :=
  s.popped &&& t.mask == 0 && t.interval == 0

/-- Writes lines, the header before them if it is missing. -/
def write (t : ProgressTable f) (lines : List String) : ProgressTable f × List String :=
  ({ t with hasHeader := true }, t.header ++ lines)

/-- The table after a notice, and the lines that it writes. -/
def observe (t : ProgressTable f) (notice : Notice f) : ProgressTable f × List String :=
  match notice.event with
  | .pop _ _ =>
    if t.isDue notice.statistics then t.write [t.progress notice.statistics] else (t, [])
  | .bound _ current =>
    let t := { t with bestBound := some current }
    t.write [t.progress notice.statistics]
  | .flush discarded => t.write [rule, flushed discarded notice.statistics]
  | .push _ _ | .prune _ _ _ | .reorder _ => (t, [])

/-- The name of a progress table as a monitor. -/
def name : String := "LogFrontierMonitor"

/-- A progress table by name, with what decides when it writes. -/
def text (t : ProgressTable f) : String :=
  name ++ "(log_interval: " ++ (t.interval / 1000).repr ++ "s, clock_check_mask: " ++ t.mask.repr
    ++ ")"

end ProgressTable

end BranchBound
