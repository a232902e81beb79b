/-
Steps: what one call of a frontier does. A step has the state after the call, also where the call
failed, the answer and the notices that were sent on the way, in order.
-/
import BranchBound.Frontier.Error
import BranchBound.Frontier.Notice

namespace BranchBound

/-- What one call does to a state of type `σ`. -/
structure Step (σ : Type) (f : Format) (α : Type) where
  state : σ
  /-- The answer, or why there is none. -/
  answer : Except Failure α
  notices : List (Notice f)

namespace Step

variable {σ α β : Type} {f : Format}

/-- A call that answers. -/
def done (state : σ) (answer : α) (notices : List (Notice f)) : Step σ f α :=
  ⟨state, .ok answer, notices⟩

/-- A call that ends in an error and sends nothing. -/
def failed (state : σ) (error : FrontierError) : Step σ f α := ⟨state, .error (.error error), []⟩

/-- A call that ends in a fault. -/
def faulted (state : σ) (fault : FrontierFault) (notices : List (Notice f)) : Step σ f α :=
  ⟨state, .error (.fault fault), notices⟩

/-- A call followed by another one that gets its answer. A failure of the first is that of both. -/
def andThen (step : Step σ f α) (next : σ → α → Step σ f β) : Step σ f β :=
  match step.answer with
  | .ok a =>
    let rest := next step.state a
    ⟨rest.state, rest.answer, step.notices ++ rest.notices⟩
  | .error failure => ⟨step.state, .error failure, step.notices⟩

@[simp]
theorem done_andThen (state : σ) (a : α) (notices : List (Notice f)) (next : σ → α → Step σ f β) :
    (done state a notices).andThen next =
      ⟨(next state a).state, (next state a).answer, notices ++ (next state a).notices⟩ := rfl

/-- Two calls that answer are one call that answers. -/
theorem andThen_eq_done {step : Step σ f α} {next : σ → α → Step σ f β} {s s' : σ} {a : α} {b : β}
    {notices notices' : List (Notice f)} (first : step = done s a notices)
    (second : next s a = done s' b notices') :
    step.andThen next = done s' b (notices ++ notices') := by
  rw [first, done_andThen, second]
  rfl

/-- After a call that sends nothing only the notices of the next one are left. -/
theorem silent_andThen {step : Step σ f α} {next : σ → α → Step σ f β} {s s' : σ} {a : α} {b : β}
    {notices : List (Notice f)} (first : step = done s a []) (second : next s a = done s' b notices) :
    step.andThen next = done s' b notices :=
  andThen_eq_done first second

@[simp]
theorem faulted_andThen (state : σ) (fault : FrontierFault) (notices : List (Notice f))
    (next : σ → α → Step σ f β) :
    (faulted state fault notices : Step σ f α).andThen next = faulted state fault notices := rfl

/-- The same call with its answer changed. -/
def map (g : α → β) (step : Step σ f α) : Step σ f β :=
  ⟨step.state, step.answer.map g, step.notices⟩

@[simp]
theorem map_done (g : α → β) (state : σ) (a : α) (notices : List (Notice f)) :
    (done state a notices).map g = done state (g a) notices := rfl

@[simp]
theorem state_map (g : α → β) (step : Step σ f α) : (step.map g).state = step.state := rfl

@[simp]
theorem notices_map (g : α → β) (step : Step σ f α) : (step.map g).notices = step.notices := rfl

/-- The same call seen through a view of its state. -/
def mapState {τ : Type} (g : σ → τ) (step : Step σ f α) : Step τ f α :=
  ⟨g step.state, step.answer, step.notices⟩

end Step

end BranchBound
