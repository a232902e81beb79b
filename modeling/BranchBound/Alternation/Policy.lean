/-
Policies of alternation: rules that say which of two views supplies each pop.
-/
import BranchBound.Settings.Error
import BranchBound.View

namespace BranchBound

/-- A rule that says which view supplies each pop. -/
inductive Policy where
  /-- The views in turn, the first one first. -/
  | strict
  /-- So many pops from the first view, then so many from the second, and again. -/
  | quota (first second : Nat)
  | firstOnly
  | secondOnly
  /-- The first view in so many of a hundred pops, drawn from the seed. -/
  | percentage (percent : Nat) (seed : UInt64)
  deriving DecidableEq

namespace Policy

def error? : Policy → Option SettingsError
  | percentage percent _ => if 100 < percent then some (.percentage percent) else none
  | quota 0 0 => some .emptyQuota
  | _ => none

def text : Policy → String
  | strict => "Strict"
  | quota first second => "Quota(first: " ++ first.repr ++ ", second: " ++ second.repr ++ ")"
  | firstOnly => "FirstOnly"
  | secondOnly => "SecondOnly"
  | percentage percent seed =>
    "Percentage(first: " ++ percent.repr ++ "%, seed: " ++ seed.toNat.repr ++ ")"

end Policy

end BranchBound
