/-
Why the settings of a frontier can be refused.
-/
namespace BranchBound

inductive SettingsError where
  | percentage (percent : Nat)
  /-- A quota of no pops at all. -/
  | emptyQuota
  | boundIsNaN
  deriving DecidableEq

namespace SettingsError

def message : SettingsError → String
  | percentage percent =>
    "Alternation percentage must be within 0..=100, got " ++ percent.repr
  | emptyQuota => "Alternation quota must allow at least one pop"
  | boundIsNaN => "Initial best-known bound must not be NaN"

def literal : SettingsError → String
  | percentage percent => "PercentageOutOfRange(" ++ percent.repr ++ ")"
  | emptyQuota => "EmptyQuota"
  | boundIsNaN => "NanBestBound"

end SettingsError

end BranchBound
