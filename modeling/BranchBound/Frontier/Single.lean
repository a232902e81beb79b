/-
A frontier with one view: the pending cells of a search, ranked one way. The cell of least cost
comes out first, and cells of equal cost in the order in which they went in.
-/
import BranchBound.Frontier.Operation
import BranchBound.Ranking

namespace BranchBound

/-- A frontier ranked one way. -/
structure Single (f : Format) where
  cells : CellStore f
  /-- Their handles by cost. -/
  queue : Heap f
  /-- What gives a cell its cost. -/
  ranking : Ranking
  /-- The best known bound, which some rankings look at. -/
  bestBound : Binary f
  statistics : Statistics
  deriving DecidableEq

namespace Single

variable {f : Format}

/-- The frontier without cells, with the best known bound given. -/
def ofRanking (ranking : Ranking) (bestBound : Binary f) : Single f where
  cells := .empty
  queue := .empty
  ranking := ranking
  bestBound := bestBound
  statistics := {}

/-! ## Looking -/

def size (s : Single f) : Nat := s.cells.size

def isEmpty (s : Single f) : Bool := s.cells.isEmpty

def get? (s : Single f) (h : CellHandle) : Option (Cell f) := s.cells.get? h

/-- The cost of a cell at the best known bound. -/
def costOf (s : Single f) (cell : Cell f) : Binary f := s.ranking.cost cell s.bestBound

/-- The cost by which a pending cell is ranked. -/
def recordedCost? (s : Single f) (h : CellHandle) : Option (Binary f) := s.queue.cost? h

/-- The cost of the next cell. -/
def topCost? (s : Single f) : Option (Binary f) := s.queue.peek?.map (·.cost)

/-- The error of a handle whose cell is gone. -/
def noCell (h : CellHandle) : FrontierError := .inconsistent .first ⟨some h, .noCell⟩

def top (s : Single f) : Except FrontierError (Cell f) :=
  match s.queue.peek? with
  | none => .error .empty
  | some entry =>
    match s.cells.get? entry.handle with
    | some cell => .ok cell
    | none => .error (noCell entry.handle)

/-- The first violation of the agreement between the view and the cells. -/
def violation? (s : Single f) : Option Violation :=
  match s.queue.violation? with
  | some violation => some violation
  | none =>
    match s.queue.handles.find? fun h => !s.cells.contains h with
    | some h => some ⟨some h, .noCell⟩
    | none => if s.queue.size = s.cells.size then none else some ⟨none, .missingCells⟩

/-- Checks that the view is in order and holds exactly the pending cells. -/
def check (s : Single f) : Except FrontierError Unit :=
  match s.violation? with
  | some violation => .error (.inconsistent .first violation)
  | none => .ok ()

/-! ## Changing -/

def rebuilt (s : Single f) : Except Heap.Fault (Single f) :=
  (Heap.ofEntries (s.cells.pending.map fun p => ⟨s.costOf p.cell, p.seq, p.handle⟩)).map
    fun queue => { s with queue := queue }

def push (s : Single f) (cell : Cell f) : Step (Single f) f CellHandle :=
  match s.cells.insert cell with
  | .error fault => .faulted s (.store fault) []
  | .ok (cells, h) =>
    match s.queue.push ⟨s.costOf cell, s.cells.nextSeq, h⟩ with
    | .error fault => .faulted { s with cells := cells } (.view fault) []
    | .ok queue =>
      let statistics := s.statistics.countPush cells.size
      .done { s with cells := cells, queue := queue, statistics := statistics } h
        [⟨.push h cell, statistics⟩]

def pop (s : Single f) : Step (Single f) f (Cell f) :=
  match s.queue.peek? with
  | none => .failed s .empty
  | some entry =>
    let queue := s.queue.pop
    match s.cells.remove entry.handle with
    | none => .faulted { s with queue := queue } (.corrupt (noCell entry.handle)) []
    | some (cell, cells) =>
      let statistics := s.statistics.countPop .first
      .done { s with cells := cells, queue := queue, statistics := statistics } cell
        [⟨.pop .first cell, statistics⟩]

/-- The cells that cannot be better than a threshold. -/
def dominated (s : Single f) (threshold : Binary f) : List (Pending f) :=
  s.cells.pending.filter fun p => s.ranking.dominates p.cell threshold

/-- Discards the cells that cannot be better than a threshold, and ranks the others anew if there
were any. Answers how many were discarded. -/
def contract (s : Single f) (threshold : Binary f) : Step (Single f) f Nat :=
  let dominated := s.dominated threshold
  let statistics := s.statistics.countContraction dominated.length
  let cells := dominated.foldl (fun cells p => cells.erase p.handle) s.cells
  let rest := { s with cells := cells, statistics := statistics }
  let notices : List (Notice f) := dominated.map fun p =>
    ⟨.prune p.cell .first threshold, statistics⟩
  if dominated.isEmpty then .done rest 0 notices
  else
    match rest.rebuilt with
    | .ok rest => .done rest dominated.length notices
    | .error fault => .faulted rest (.view fault) notices

/-- Ranks all cells anew and says so. -/
def reorder (s : Single f) : Step (Single f) f Unit :=
  match s.rebuilt with
  | .error fault => .faulted s (.view fault) []
  | .ok s =>
    let statistics := s.statistics.countReorder
    .done { s with statistics := statistics } () [⟨.reorder .first, statistics⟩]

/-- Ranks all cells anew if their costs depend on the best known bound. -/
def reorderDependent (s : Single f) : Step (Single f) f Unit :=
  if s.ranking.dependsOnBound then s.reorder else .done s () []

/-- Stores a best known bound, which has to be a number, and answers the one before. -/
def storeBestBound (s : Single f) (bound : Binary f) : Step (Single f) f (Binary f) :=
  if bound.isNaN then .faulted s .singleBoundIsNaN []
  else
    .done { s with bestBound := bound, statistics := s.statistics.countBoundUpdate } s.bestBound []

/-- Says that the best known bound was replaced. -/
def announceBound (s : Single f) (previous : Binary f) : Step (Single f) f Unit :=
  .done s () [⟨.bound previous s.bestBound, s.statistics⟩]

/-- Replaces the best known bound and ranks the cells by it. -/
def setBestBound (s : Single f) (bound : Binary f) : Step (Single f) f Unit :=
  (s.storeBestBound bound).andThen fun s previous =>
  s.reorderDependent.andThen fun s _ =>
  s.announceBound previous

/-- Replaces the best known bound, discards the cells that cannot be better and ranks the others by
it. A contraction that discarded cells has ranked them already. -/
def updateBestBound (s : Single f) (bound : Binary f) : Step (Single f) f Nat :=
  (s.storeBestBound bound).andThen fun s previous =>
  (s.contract bound).andThen fun s discarded =>
  (if discarded = 0 then s.reorderDependent else .done s () []).andThen fun s _ =>
  (s.announceBound previous).map fun _ => discarded

/-- Discards all cells and answers how many. -/
def flush (s : Single f) : Step (Single f) f Nat :=
  let discarded := s.cells.size
  let statistics := s.statistics.countFlush discarded
  .done { s with cells := s.cells.clear, queue := .empty, statistics := statistics } discarded
    [⟨.flush discarded, statistics⟩]

/-- One operation. -/
def apply (s : Single f) : Operation f → Step (Single f) f (Answer f)
  | .push cell => (s.push cell).map .handle
  | .pop => s.pop.map .cell
  | .top =>
    match s.top with
    | .ok cell => .done s (.cell cell) []
    | .error error => .failed s error
  | .contract threshold => (s.contract threshold).map .count
  | .setBestBound bound => (s.setBestBound bound).map fun _ => .unit
  | .updateBestBound bound => (s.updateBestBound bound).map .count
  | .reorder => s.reorder.map fun _ => .unit
  | .flush => s.flush.map .count

/-! ## Text -/

/-- The pending cells in the order in which they would come out, under a line about the frontier. -/
def text (s : Single f) : String :=
  "RankedFrontier(strategy: " ++ s.ranking.text ++ ", best bound: " ++ s.bestBound.text .plain
    ++ ", cells: " ++ s.size.repr ++ ")\n"
    ++ String.join (s.queue.sorted.filterMap fun entry =>
      (s.cells.get? entry.handle).map fun cell =>
        "  " ++ entry.handle.text ++ ": " ++ cell.text ++ "\n")

end Single

end BranchBound
