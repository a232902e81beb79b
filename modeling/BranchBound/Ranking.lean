/-
Rankings. A ranking gives every cell a cost, and the cell of least cost is explored first. Some
rankings look at the best known bound, and every ranking can certify a lower bound on the
objective, by which a cell may be discarded.
-/
import BranchBound.Cell

namespace BranchBound

/-- A rule that orders cells. The goal is the variable that stands for the objective. -/
inductive Ranking where
  /-- The least lower bound of the goal first. -/
  | goalLower (goal : Nat)
  /-- The least upper bound of the goal first. -/
  | goalUpper (goal : Nat)
  /-- The least lower bound of the estimate first. -/
  | estimateLower
  /-- The least upper bound of the estimate first. -/
  | estimateUpper
  /-- The largest weight first. -/
  | weight
  /-- The estimate that lies farthest below the best known bound, in widths of its own, first. -/
  | tightness
  /-- Tightness times weight. -/
  | weightedTightness
  /-- The lower bound of the goal by the weighted tightness. -/
  | goalOverTightness (goal : Nat)
  deriving DecidableEq

namespace Ranking

variable {f : Format}

/-- How far the estimate of a cell reaches below the best known bound, in widths of its own. -/
def tightnessOf (cell : Cell f) (bestBound : Binary f) : Binary f :=
  (bestBound - cell.estimate.lb) / cell.estimate.diameter

/-- The lower bound of the goal, if the cell has that variable. -/
def goalLowerBound (cell : Cell f) (goal : Nat) : Binary f :=
  ((cell.region.get? goal).map Interval.lb).getD .nan

/-- The upper bound of the goal, if the cell has that variable. -/
def goalUpperBound (cell : Cell f) (goal : Nat) : Binary f :=
  ((cell.region.get? goal).map Interval.ub).getD .nan

/-- The cost of a cell where its formula has a value. -/
def formula (cell : Cell f) (bestBound : Binary f) : Ranking → Binary f
  | goalLower goal => goalLowerBound cell goal
  | goalUpper goal => goalUpperBound cell goal
  | estimateLower => cell.estimate.lb
  | estimateUpper => cell.estimate.ub
  | weight => -cell.weight
  | tightness => -tightnessOf cell bestBound
  | weightedTightness => -(cell.weight * tightnessOf cell bestBound)
  | goalOverTightness goal =>
    goalLowerBound cell goal / (cell.weight * tightnessOf cell bestBound)

/-- The cost of a cell at a best known bound. A cell whose formula has no value comes last. -/
def cost (r : Ranking) (cell : Cell f) (bestBound : Binary f) : Binary f :=
  let cost := r.formula cell bestBound
  if cost.isNaN then .infinity else cost

/-- Whether the cost of a cell may change with the best known bound. -/
def dependsOnBound : Ranking → Bool
  | tightness | weightedTightness | goalOverTightness _ => true
  | _ => false

/-- Every cell has a number for its cost. -/
theorem isNaN_cost (r : Ranking) (cell : Cell f) (bestBound : Binary f) :
    (r.cost cell bestBound).isNaN = false := by
  unfold cost
  simp only
  split
  · rfl
  · rename_i h
    exact Bool.eq_false_iff.2 h

/-- A ranking that does not look at the best known bound keeps every cost when it changes. -/
theorem cost_eq_of_independent {r : Ranking} (h : r.dependsOnBound = false) (cell : Cell f)
    (bound bound' : Binary f) : r.cost cell bound = r.cost cell bound' := by
  cases r <;> first | rfl | cases h

/-- The variable that stands for the objective, if the ranking looks at one. -/
def goal? : Ranking → Option Nat
  | goalLower goal | goalUpper goal | goalOverTightness goal => some goal
  | _ => none

/-- The lower bound on the objective that the ranking certifies for a cell: that of the goal for a
ranking with a goal, else that of the estimate, and nothing where there is none. -/
def certifiedLowerBound (r : Ranking) (cell : Cell f) : Binary f :=
  let bound := match r.goal? with
    | some goal => goalLowerBound cell goal
    | none => cell.estimate.lb
  if bound.isNaN then .negInfinity else bound

/-- Whether a cell certainly holds nothing below a threshold. -/
def dominates (r : Ranking) (cell : Cell f) (threshold : Binary f) : Bool :=
  decide (threshold < r.certifiedLowerBound cell)

/-! ## Text -/

def name : Ranking → String
  | goalLower _ => "GoalLowerBound"
  | goalUpper _ => "GoalUpperBound"
  | estimateLower => "EstimateLowerBound"
  | estimateUpper => "EstimateUpperBound"
  | weight => "HeuristicWeight"
  | tightness => "Tightness"
  | weightedTightness => "WeightedTightness"
  | goalOverTightness _ => "GoalOverWeightedTightness"

/-- The name of a ranking, with its goal if it has one. -/
def text (r : Ranking) : String :=
  match r.goal? with
  | some goal => r.name ++ "(goal_var: " ++ goal.repr ++ ")"
  | none => r.name

end Ranking

end BranchBound
