/-
Settings of a frontier with two views: the ranking of each view, the policy between them and the
best known bound at the start.
-/
import BranchBound.Alternation.Policy
import BranchBound.Ranking

namespace BranchBound

/-- What a frontier with two views is made from. -/
structure Settings (f : Format) where
  rankings : PerView Ranking
  policy : Policy
  /-- The best known bound at the start, infinite where no solution is known. -/
  initialBound : Binary f
  deriving DecidableEq

namespace Settings

variable {f : Format}

/-- Two rankings in strict turn, and no solution known. -/
def ofRankings (first second : Ranking) : Settings f := ⟨⟨first, second⟩, .strict, .infinity⟩

/-- The settings of an ordinary search: the least lower bound of the goal, which is the first
variable, in turn with weighted tightness. -/
def ordinary : Settings f := ofRankings (.goalLower 0) .weightedTightness

/-- The error of settings that no frontier can be made from. -/
def error? (s : Settings f) : Option SettingsError :=
  match s.policy.error? with
  | some error => some error
  | none => if s.initialBound.isNaN then some .boundIsNaN else none

/-- The settings, if a frontier can be made from them. -/
def checked (s : Settings f) : Except SettingsError (Settings f) :=
  match s.error? with
  | some error => .error error
  | none => .ok s

/-- Whether two settings are the same, the bounds numerically. -/
def equals (s t : Settings f) : Bool :=
  s.rankings == t.rankings && s.policy == t.policy && s.initialBound.equals t.initialBound

def text (s : Settings f) : String :=
  "FrontierConfig(first: " ++ s.rankings.first.text ++ ", second: " ++ s.rankings.second.text
    ++ ", alternation: " ++ s.policy.text
    ++ ", initial best bound: " ++ s.initialBound.text .plain ++ ")"

end Settings

end BranchBound
