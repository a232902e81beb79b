/-
A frontier that several workers share. Every call has the frontier to itself. A call that ends in
a fault may leave the frontier in the middle of a change, so no later call gets at it.
-/
import BranchBound.Frontier.Paired

namespace BranchBound

/-- A shared frontier. -/
inductive Guarded (f : Format) where
  /-- The frontier is free. -/
  | free (frontier : Paired f)
  /-- A worker failed while it held the frontier, and this is how it left it. -/
  | poisoned (remains : Paired f)
  deriving DecidableEq

namespace Guarded

variable {f : Format} {α : Type}

/-- Runs a call with the frontier held. -/
def withLock (g : Guarded f) (act : Paired f → Step (Paired f) f α) :
    Guarded f × Except Failure α :=
  match g with
  | poisoned remains => (poisoned remains, .error (.error .poisoned))
  | free frontier =>
    let step := act frontier
    match step.answer with
    | .error (.fault fault) => (poisoned step.state, .error (.fault fault))
    | answer => (free step.state, answer)

/-- One operation on the shared frontier. -/
def apply (g : Guarded f) (operation : Operation f) : Guarded f × Except Failure (Answer f) :=
  g.withLock (·.apply operation)

/-- The frontier itself, which is no longer shared. -/
def release : Guarded f → Except FrontierError (Paired f)
  | free frontier => .ok frontier
  | poisoned _ => .error .poisoned

def size (g : Guarded f) : Except FrontierError Nat := g.release.map Paired.size

def isEmpty (g : Guarded f) : Except FrontierError Bool := g.release.map Paired.isEmpty

end Guarded

end BranchBound
