/-
A frontier with the monitor that watches it. A call runs on the frontier alone, and the monitor
gets the notices of the call afterwards, in order.
-/
import BranchBound.Frontier.Operation
import BranchBound.Monitor.Basic

namespace BranchBound

/-- A state of type `σ` and its monitor. -/
structure Watched (σ : Type) (f : Format) where
  state : σ
  monitor : Monitor f

namespace Watched

variable {σ α : Type} {f : Format}

/-- Makes a call: the state and monitor after it, the answer and what the monitor puts out. -/
def call (w : Watched σ f) (act : σ → Step σ f α) :
    Watched σ f × Except Failure α × List (Output f) :=
  let step := act w.state
  let watch := w.monitor.observeEach step.notices
  (⟨step.state, watch.1⟩, step.answer, watch.2)

/-- Makes the calls of a list of operations: the state and monitor after them, and what the monitor
puts out. -/
def run (w : Watched σ f) (apply : σ → Operation f → Step σ f (Answer f)) :
    List (Operation f) → Watched σ f × List (Output f)
  | [] => (w, [])
  | operation :: rest =>
    let first := w.call (apply · operation)
    let others := first.1.run apply rest
    (others.1, first.2.2 ++ others.2)

end Watched

end BranchBound
