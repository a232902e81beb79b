/-
Operations on a frontier as data, so that whole runs can be spoken about, and their answers.
-/
import BranchBound.Frontier.Step

namespace BranchBound

/-- A call that changes a frontier or asks for its next cell. -/
inductive Operation (f : Format) where
  | push (cell : Cell f)
  | pop
  | top
  /-- Discards the cells that cannot be better than a threshold. -/
  | contract (threshold : Binary f)
  /-- Replaces the best known bound. -/
  | setBestBound (bound : Binary f)
  /-- Replaces the best known bound and discards the cells that cannot be better. -/
  | updateBestBound (bound : Binary f)
  | reorder
  | flush
  deriving DecidableEq

namespace Operation

variable {f : Format}

/-- Whether an operation puts a cell in. -/
def isPush : Operation f → Bool
  | push _ => true
  | _ => false

/-- Whether an operation may discard cells that cannot be better than a threshold. -/
def contracts : Operation f → Bool
  | contract _ | updateBestBound _ => true
  | _ => false

/-- The best known bound that an operation stores, if it stores one. -/
def newBound? : Operation f → Option (Binary f)
  | setBestBound bound | updateBestBound bound => some bound
  | _ => none

/-- The best known bound that an operation stores, if it stores one, is a number. -/
def Numeric (operation : Operation f) : Prop := operation.newBound?.any Binary.isNaN = false

instance (operation : Operation f) : Decidable operation.Numeric :=
  inferInstanceAs (Decidable (operation.newBound?.any Binary.isNaN = false))

end Operation

/-- What a call answers. -/
inductive Answer (f : Format) where
  /-- The handle of a cell put in. -/
  | handle (h : CellHandle)
  | cell (cell : Cell f)
  | count (count : Nat)
  /-- Nothing but that the call is over. -/
  | unit
  deriving DecidableEq

/-- An answer that does not tell handles. -/
def Answer.withoutHandle {f : Format} : Answer f → Answer f
  | handle _ => unit
  | answer => answer

/-- Runs a list of operations one after the other; each of them gets the state that the one before
it has left, also by failing. -/
def runFrom {σ : Type} {f : Format} (apply : σ → Operation f → Step σ f (Answer f)) (state : σ) :
    List (Operation f) → List (Step σ f (Answer f))
  | [] => []
  | operation :: rest =>
    let step := apply state operation
    step :: runFrom apply step.state rest

/-- The state that a list of operations leaves behind. -/
def stateAfter {σ : Type} {f : Format} (apply : σ → Operation f → Step σ f (Answer f)) (state : σ)
    (operations : List (Operation f)) : σ :=
  operations.foldl (fun state operation => (apply state operation).state) state

/-- One call of a run. -/
structure Call (σ : Type) (f : Format) where
  /-- The state that the call gets. -/
  before : σ
  operation : Operation f
  /-- What it does. -/
  step : Step σ f (Answer f)

/-- The calls of a list of operations run one after the other. -/
def callsFrom {σ : Type} {f : Format} (apply : σ → Operation f → Step σ f (Answer f)) (state : σ) :
    List (Operation f) → List (Call σ f)
  | [] => []
  | operation :: rest =>
    let step := apply state operation
    ⟨state, operation, step⟩ :: callsFrom apply step.state rest

section Prolonged

variable {σ : Type} {f : Format} (apply : σ → Operation f → Step σ f (Answer f)) (state : σ)
  (operations : List (Operation f)) (operation : Operation f)

theorem stateAfter_append_singleton :
    stateAfter apply state (operations ++ [operation]) =
      (apply (stateAfter apply state operations) operation).state :=
  List.foldl_append

theorem callsFrom_append_singleton :
    callsFrom apply state (operations ++ [operation]) =
      callsFrom apply state operations ++
        [⟨stateAfter apply state operations, operation,
          apply (stateAfter apply state operations) operation⟩] := by
  induction operations generalizing state with
  | nil => rfl
  | cons first rest ih => exact congrArg (List.cons _) (ih (apply state first).state)

end Prolonged

/-- What every operation keeps, every run keeps. -/
theorem stateAfter_keeps {σ : Type} {f : Format} {apply : σ → Operation f → Step σ f (Answer f)}
    {P : σ → Prop} (step : ∀ state operation, P state → P (apply state operation).state)
    {state : σ} (start : P state) (operations : List (Operation f)) :
    P (stateAfter apply state operations) := by
  induction operations generalizing state with
  | nil => exact start
  | cons operation rest ih => exact ih (step state operation start)

/-- Two machines that answer alike step by step, as far as `look` and `look'` tell, answer alike
along whole runs. The relation between their states may depend on the operations to come. -/
theorem runFrom_agrees_along {σ τ α : Type} {f : Format}
    {apply : σ → Operation f → Step σ f (Answer f)} {apply' : τ → Operation f → Step τ f (Answer f)}
    (look : Step σ f (Answer f) → α) (look' : Step τ f (Answer f) → α)
    {R : List (Operation f) → σ → τ → Prop}
    (step : ∀ operation rest s t, R (operation :: rest) s t →
      look (apply s operation) = look' (apply' t operation) ∧
        R rest (apply s operation).state (apply' t operation).state)
    {operations : List (Operation f)} {s : σ} {t : τ} (start : R operations s t) :
    (runFrom apply s operations).map look = (runFrom apply' t operations).map look' ∧
      R [] (stateAfter apply s operations) (stateAfter apply' t operations) := by
  induction operations generalizing s t with
  | nil => exact ⟨rfl, start⟩
  | cons operation rest ih =>
    obtain ⟨hlook, hnext⟩ := step operation rest s t start
    obtain ⟨hrest, hend⟩ := ih hnext
    exact ⟨congr (congrArg List.cons hlook) hrest, hend⟩

/-- Machines that answer alike on operations with numbers for bounds. The relation between their
states may depend on the number of pushes to come. -/
theorem runFrom_agrees {σ τ α : Type} {f : Format}
    {apply : σ → Operation f → Step σ f (Answer f)} {apply' : τ → Operation f → Step τ f (Answer f)}
    (look : Step σ f (Answer f) → α) (look' : Step τ f (Answer f) → α) {R : Nat → σ → τ → Prop}
    (step : ∀ pushes s t operation, operation.Numeric →
      R (pushes + if operation.isPush then 1 else 0) s t →
      look (apply s operation) = look' (apply' t operation) ∧
        R pushes (apply s operation).state (apply' t operation).state)
    {operations : List (Operation f)} (numeric : ∀ operation ∈ operations, operation.Numeric)
    {s : σ} {t : τ} (start : R (operations.countP Operation.isPush) s t) :
    (runFrom apply s operations).map look = (runFrom apply' t operations).map look' ∧
      R 0 (stateAfter apply s operations) (stateAfter apply' t operations) := by
  obtain ⟨hlook, -, hend⟩ := runFrom_agrees_along look look'
    (R := fun rest s t =>
      (∀ operation ∈ rest, operation.Numeric) ∧ R (rest.countP Operation.isPush) s t)
    (fun operation rest s t ⟨hnumeric, hrel⟩ => by
      rw [List.countP_cons] at hrel
      obtain ⟨hlook, hnext⟩ := step _ s t operation (hnumeric operation List.mem_cons_self) hrel
      exact ⟨hlook, fun o ho => hnumeric o (List.mem_cons_of_mem _ ho), hnext⟩)
    ⟨numeric, start⟩
  exact ⟨hlook, hend⟩

end BranchBound
