/-
What can go wrong with a frontier. An error is an answer that a caller has to expect; a fault ends
the call that ran into it, since the frontier was used against its rules or is corrupt.
-/
import BranchBound.CellStore
import BranchBound.Heap.Check
import BranchBound.Settings.Error
import BranchBound.Text.Quoted
import BranchBound.View

namespace BranchBound

/-- An error of a frontier. -/
inductive FrontierError where
  /-- No cell is pending. The ordinary end of a search. -/
  | empty
  /-- The settings were refused. -/
  | settings (error : SettingsError)
  /-- A view of the pending cells is corrupt. -/
  | inconsistent (view : View) (violation : Violation)
  /-- A worker failed while it held the frontier. -/
  | poisoned
  deriving DecidableEq

namespace FrontierError

def message : FrontierError → String
  | empty => "The frontier is empty"
  | settings error => "Invalid frontier configuration: " ++ error.message
  | inconsistent view ⟨some h, defect⟩ =>
    "Inconsistent " ++ view.text ++ " view at " ++ h.text ++ ": " ++ defect.reason
  | inconsistent view ⟨none, defect⟩ =>
    "Inconsistent " ++ view.text ++ " view: " ++ defect.reason
  | poisoned => "The shared frontier lock was poisoned"

/-- An error by its symbol and fields. -/
def literal : FrontierError → String
  | empty => "EmptyFrontier"
  | settings error => "InvalidConfig(" ++ error.literal ++ ")"
  | inconsistent view violation =>
    let cell := match violation.handle with
      | some h => "Some(" ++ h.text ++ ")"
      | none => "None"
    "InconsistentView \x7b view: " ++ view.literal ++ ", cell: " ++ cell ++ ", reason: "
      ++ Text.quoted violation.defect.reason ++ " \x7d"
  | poisoned => "Poisoned"

/-- The error behind an error. -/
def cause? : FrontierError → Option SettingsError
  | settings error => some error
  | _ => none

end FrontierError

/-- A fault in a call of a frontier. -/
inductive FrontierFault where
  /-- The store of cells is corrupt. -/
  | store (fault : CellStore.Fault)
  /-- A view was to queue a handle twice. -/
  | view (fault : Heap.Fault)
  /-- A pop found a view corrupt. -/
  | corrupt (error : FrontierError)
  /-- A frontier with one view was given a best known bound that is no number. -/
  | singleBoundIsNaN
  /-- A frontier with two views was given a best known bound that is no number. -/
  | pairedBoundIsNaN
  /-- A worker that held the frontier failed, and said this. -/
  | worker (message : String)
  deriving DecidableEq

def FrontierFault.message : FrontierFault → String
  | store fault => fault.message
  | view fault => fault.message
  | corrupt error => error.message
  | singleBoundIsNaN => "called `RankedFrontier::set_best_bound` with NaN"
  | pairedBoundIsNaN => "called `DualFrontier::set_best_bound` with NaN"
  | worker message => message

/-- Why a call gave no answer. -/
inductive Failure where
  | error (error : FrontierError)
  | fault (fault : FrontierFault)
  deriving DecidableEq

end BranchBound
