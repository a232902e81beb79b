/-
Indices tagged with the space they point into, so that two spaces cannot be mixed up.
-/
namespace BranchBound

/-- An index into the space of that name. -/
structure Index (space : String) where
  /-- The bare index. -/
  val : Nat
  deriving DecidableEq

namespace Index

variable {space : String}

theorem val_inj {i j : Index space} : i.val = j.val ↔ i = j := by
  constructor
  · cases i
    cases j
    rintro rfl
    rfl
  · rintro rfl
    rfl

/-- The order of indices is that of the bare ones. -/
def order (a b : Index space) : Ordering := compare a.val b.val

/-- An index with the name of its space. -/
def text (i : Index space) : String := space ++ "(" ++ i.val.repr ++ ")"

end Index

/-- The handle by which a pending cell is known. -/
abbrev CellHandle := Index "CellId"

end BranchBound
