/-
The two views of the pending cells, each of which ranks them in its own way.
-/
namespace BranchBound

/-- One of the two orders of the pending cells. -/
inductive View where
  | first
  | second
  deriving DecidableEq

namespace View

def other : View → View
  | first => second
  | second => first

def text : View → String
  | first => "first"
  | second => "second"

def literal : View → String
  | first => "First"
  | second => "Second"

end View

/-- One value for each view. -/
structure PerView (α : Type) where
  first : α
  second : α
  deriving DecidableEq

namespace PerView

variable {α : Type}

def get (p : PerView α) : View → α
  | .first => p.first
  | .second => p.second

/-- The values with that of one view changed. -/
def modify (p : PerView α) (view : View) (change : α → α) : PerView α :=
  match view with
  | .first => { p with first := change p.first }
  | .second => { p with second := change p.second }

end PerView

end BranchBound
