/-
A frontier with two views: the pending cells of a search, ranked two ways at once, with a policy
that says which view supplies each pop. Both views hold exactly the pending cells, so a cell that
one view hands out is taken out of the other too.
-/
import BranchBound.Alternation.Turn
import BranchBound.Frontier.Operation
import BranchBound.Settings

namespace BranchBound

/-- A frontier ranked two ways. -/
structure Paired (f : Format) where
  cells : CellStore f
  /-- Their handles by cost, for each view. -/
  views : PerView (Heap f)
  /-- What gives a cell its cost in each view. -/
  rankings : PerView Ranking
  /-- Which view supplies the next pop. -/
  turn : Turn
  /-- The best known bound, which some rankings look at. -/
  bestBound : Binary f
  statistics : Statistics
  deriving DecidableEq

namespace Paired

variable {f : Format}

/-- The frontier without cells for settings that need no check. -/
def ofSettings (settings : Settings f) : Paired f where
  cells := .empty
  views := ⟨.empty, .empty⟩
  rankings := settings.rankings
  turn := .start settings.policy
  bestBound := settings.initialBound
  statistics := {}

/-- The frontier without cells for two rankings in strict turn. -/
def ofRankings (first second : Ranking) : Paired f := ofSettings (.ofRankings first second)

/-- The frontier without cells for settings that are checked. -/
def ofSettings? (settings : Settings f) : Except FrontierError (Paired f) :=
  match settings.error? with
  | some error => .error (.settings error)
  | none => .ok (ofSettings settings)

/-! ## Looking -/

def size (s : Paired f) : Nat := s.cells.size

def isEmpty (s : Paired f) : Bool := s.cells.isEmpty

def get? (s : Paired f) (h : CellHandle) : Option (Cell f) := s.cells.get? h

/-- The view that supplies the next pop. -/
def currentView (s : Paired f) : View := s.turn.current

/-- The cost of a cell in a view at the best known bound. -/
def costOf (s : Paired f) (view : View) (cell : Cell f) : Binary f :=
  (s.rankings.get view).cost cell s.bestBound

/-- The cost by which a view ranks a pending cell. -/
def recordedCost? (s : Paired f) (view : View) (h : CellHandle) : Option (Binary f) :=
  (s.views.get view).cost? h

/-- The error of a handle in a view whose cell is gone. -/
def noCell (view : View) (h : CellHandle) : FrontierError := .inconsistent view ⟨some h, .noCell⟩

def top (s : Paired f) : Except FrontierError (Cell f) :=
  match (s.views.get s.currentView).peek? with
  | none => .error .empty
  | some entry =>
    match s.cells.get? entry.handle with
    | some cell => .ok cell
    | none => .error (noCell s.currentView entry.handle)

/-- The first violation in a view, with the view that it blames. -/
def violationIn? (s : Paired f) (view : View) : Option (View × Violation) :=
  let queue := s.views.get view
  match queue.violation? with
  | some violation => some (view, violation)
  | none =>
    if queue.size ≠ s.cells.size then some (view, ⟨none, .wrongSize⟩)
    else
      match queue.handles.find? fun h => !s.cells.contains h with
      | some h => some (view, ⟨some h, .noCell⟩)
      | none =>
        (queue.handles.find? fun h => !(s.views.get view.other).contains h).map fun h =>
          (view.other, ⟨some h, .missingTwin⟩)

/-- Checks that both views are in order and hold exactly the pending cells. -/
def check (s : Paired f) : Except FrontierError Unit :=
  match (s.violationIn? .first).or (s.violationIn? .second) with
  | some (view, violation) => .error (.inconsistent view violation)
  | none => .ok ()

/-! ## Changing -/

/-- Ranks the cells anew in one view. -/
def rebuilt (s : Paired f) (view : View) : Except Heap.Fault (Paired f) :=
  (Heap.ofEntries (s.cells.pending.map fun p => ⟨s.costOf view p.cell, p.seq, p.handle⟩)).map
    fun queue => { s with views := s.views.modify view fun _ => queue }

def push (s : Paired f) (cell : Cell f) : Step (Paired f) f CellHandle :=
  match s.cells.insert cell with
  | .error fault => .faulted s (.store fault) []
  | .ok (cells, h) =>
    let entry := fun view => ⟨s.costOf view cell, s.cells.nextSeq, h⟩
    match s.views.first.push (entry .first) with
    | .error fault => .faulted { s with cells := cells } (.view fault) []
    | .ok first =>
      match s.views.second.push (entry .second) with
      | .error fault =>
        .faulted { s with cells := cells, views := ⟨first, s.views.second⟩ } (.view fault) []
      | .ok second =>
        let statistics := s.statistics.countPush cells.size
        .done { s with cells := cells, views := ⟨first, second⟩, statistics := statistics } h
          [⟨.push h cell, statistics⟩]

/-- Takes the next cell of the current view out, also of the other view, and passes the turn on. A
frontier whose views disagree about the cell is left as it is. -/
def pop (s : Paired f) : Step (Paired f) f (Cell f) :=
  let source := s.currentView
  match (s.views.get source).peek? with
  | none => .failed s .empty
  | some entry =>
    if !(s.views.get source.other).contains entry.handle then
      .faulted s (.corrupt (.inconsistent source.other ⟨some entry.handle, .missingTwin⟩)) []
    else
      match s.cells.remove entry.handle with
      | none => .faulted s (.corrupt (noCell source entry.handle)) []
      | some (cell, cells) =>
        let views := (s.views.modify source Heap.pop).modify source.other (·.erase entry.handle)
        let statistics := s.statistics.countPop source
        .done { s with
          cells := cells
          views := views
          turn := s.turn.advance
          statistics := statistics } cell [⟨.pop source cell, statistics⟩]

/-- The view whose ranking is the first to say that a cell cannot be better than a threshold. -/
def dominatingView? (s : Paired f) (threshold : Binary f) (cell : Cell f) : Option View :=
  if s.rankings.first.dominates cell threshold then some .first
  else if s.rankings.second.dominates cell threshold then some .second
  else none

/-- The cells that cannot be better than a threshold, with the view that says so. -/
def dominated (s : Paired f) (threshold : Binary f) : List (Pending f × View) :=
  s.cells.pending.filterMap fun p => (s.dominatingView? threshold p.cell).map fun view => (p, view)

/-- Discards the cells that cannot be better than a threshold, and ranks the others anew if there
were any. Answers how many were discarded. -/
def contract (s : Paired f) (threshold : Binary f) : Step (Paired f) f Nat :=
  let dominated := s.dominated threshold
  let statistics := s.statistics.countContraction dominated.length
  let cells := dominated.foldl (fun cells d => cells.erase d.1.handle) s.cells
  let rest := { s with cells := cells, statistics := statistics }
  let notices : List (Notice f) := dominated.map fun d =>
    ⟨.prune d.1.cell d.2 threshold, statistics⟩
  if dominated.isEmpty then .done rest 0 notices
  else
    match (rest.rebuilt .first).bind fun rest => rest.rebuilt .second with
    | .ok rest => .done rest dominated.length notices
    | .error fault => .faulted rest (.view fault) notices

/-- Ranks the cells anew in one view and says so. -/
def reorderView (s : Paired f) (view : View) : Step (Paired f) f Unit :=
  match s.rebuilt view with
  | .error fault => .faulted s (.view fault) []
  | .ok s =>
    let statistics := s.statistics.countReorder
    .done { s with statistics := statistics } () [⟨.reorder view, statistics⟩]

/-- Ranks the cells anew in both views. -/
def reorder (s : Paired f) : Step (Paired f) f Unit :=
  (s.reorderView .first).andThen fun s _ => s.reorderView .second

/-- Ranks the cells anew in a view whose costs depend on the best known bound. -/
def reorderIfDependent (s : Paired f) (view : View) : Step (Paired f) f Unit :=
  if (s.rankings.get view).dependsOnBound then s.reorderView view else .done s () []

/-- Ranks the cells anew in the views whose costs depend on the best known bound. -/
def reorderDependent (s : Paired f) : Step (Paired f) f Unit :=
  (s.reorderIfDependent .first).andThen fun s _ => s.reorderIfDependent .second

/-- Stores a best known bound, which has to be a number, and answers the one before. -/
def storeBestBound (s : Paired f) (bound : Binary f) : Step (Paired f) f (Binary f) :=
  if bound.isNaN then .faulted s .pairedBoundIsNaN []
  else
    .done { s with bestBound := bound, statistics := s.statistics.countBoundUpdate } s.bestBound []

/-- Says that the best known bound was replaced. -/
def announceBound (s : Paired f) (previous : Binary f) : Step (Paired f) f Unit :=
  .done s () [⟨.bound previous s.bestBound, s.statistics⟩]

/-- Replaces the best known bound and ranks the cells by it. -/
def setBestBound (s : Paired f) (bound : Binary f) : Step (Paired f) f Unit :=
  (s.storeBestBound bound).andThen fun s previous =>
  s.reorderDependent.andThen fun s _ =>
  s.announceBound previous

/-- Replaces the best known bound, discards the cells that cannot be better and ranks the others by
it. A contraction that discarded cells has ranked them already. -/
def updateBestBound (s : Paired f) (bound : Binary f) : Step (Paired f) f Nat :=
  (s.storeBestBound bound).andThen fun s previous =>
  (s.contract bound).andThen fun s discarded =>
  (if discarded = 0 then s.reorderDependent else .done s () []).andThen fun s _ =>
  (s.announceBound previous).map fun _ => discarded

/-- Discards all cells and answers how many. The turn stays where it is. -/
def flush (s : Paired f) : Step (Paired f) f Nat :=
  let discarded := s.cells.size
  let statistics := s.statistics.countFlush discarded
  .done { s with cells := s.cells.clear, views := ⟨.empty, .empty⟩, statistics := statistics }
    discarded [⟨.flush discarded, statistics⟩]

/-- One operation. -/
def apply (s : Paired f) : Operation f → Step (Paired f) f (Answer f)
  | .push cell => (s.push cell).map .handle
  | .pop => s.pop.map .cell
  | .top =>
    match s.top with
    | .ok cell => .done s (.cell cell) []
    | .error error => .failed s error
  | .contract threshold => (s.contract threshold).map .count
  | .setBestBound bound => (s.setBestBound bound).map fun _ => .unit
  | .updateBestBound bound => (s.updateBestBound bound).map .count
  | .reorder => s.reorder.map fun _ => .unit
  | .flush => s.flush.map .count

/-! ## Text -/

/-- The pending cells in the order of the first view, under a line about the frontier. -/
def text (s : Paired f) : String :=
  "DualFrontier(first: " ++ s.rankings.first.text ++ ", second: " ++ s.rankings.second.text
    ++ ", alternation: " ++ s.turn.policy.text ++ ", best bound: " ++ s.bestBound.text .plain
    ++ ", cells: " ++ s.size.repr ++ ")\n"
    ++ String.join (s.views.first.sorted.filterMap fun entry =>
      (s.cells.get? entry.handle).map fun cell =>
        "  " ++ entry.handle.text ++ ": " ++ cell.text ++ "\n")

end Paired

end BranchBound
