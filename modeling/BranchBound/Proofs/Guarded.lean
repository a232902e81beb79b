/-
A shared frontier against a plain one. Workers ask a shared frontier in any order for operations,
for the number of cells and to hold it for work of their own (`Task`). Main statement
(`Guarded.serves_as_plain`): up to the first fault it answers what a plain frontier answers that is
asked the same; from then on it answers nothing but that it is poisoned. Without a fault it gives the
plain frontier back, and the ledger of all calls, also of those made at work, tells what has become
of each cell.
-/
import BranchBound.Guarded
import BranchBound.Proofs.Frontier.Ledger

namespace BranchBound

variable {f : Format} {α κ ρ : Type}

/-! ## Tasks -/

/-- What a worker asks of a frontier. The work of a worker that wants to hold it is of type `κ`. -/
inductive Task (f : Format) (κ : Type) where
  | operation (call : Operation f)
  | size
  | isEmpty
  | withLock (work : κ)

def Task.map (g : κ → ρ) : Task f κ → Task f ρ
  | .operation call => .operation call
  | .size => .size
  | .isEmpty => .isEmpty
  | .withLock work => .withLock (g work)

/-- What a worker is answered. -/
inductive Reply (f : Format) (ρ : Type) where
  | answer (answer : Answer f)
  | size (size : Nat)
  | isEmpty (isEmpty : Bool)
  | result (result : ρ)
  deriving DecidableEq

/-- Anything that may be done with a frontier, and its result. -/
abbrev Act (f : Format) (ρ : Type) : Type := Paired f → Step (Paired f) f ρ

/-- A plain frontier asked for a task. -/
def Paired.serve (s : Paired f) : Task f (Act f ρ) → Step (Paired f) f (Reply f ρ)
  | .operation operation => (s.apply operation).map .answer
  | .size => .done s (.size s.size) []
  | .isEmpty => .done s (.isEmpty s.isEmpty) []
  | .withLock act => (act s).map .result

/-- A plain frontier asked for tasks one after the other. -/
def Paired.serveAll (s : Paired f) :
    List (Task f (Act f ρ)) → Paired f × List (Except Failure (Reply f ρ))
  | [] => (s, [])
  | task :: rest =>
    let step := s.serve task
    let after := step.state.serveAll rest
    (after.1, step.answer :: after.2)

theorem Paired.length_serveAll (s : Paired f) (tasks : List (Task f (Act f ρ))) :
    (s.serveAll tasks).2.length = tasks.length := by
  induction tasks generalizing s with
  | nil => rfl
  | cons task rest ih => exact congrArg (· + 1) (ih (s.serve task).state)

namespace Guarded

/-- A shared frontier asked for a task. -/
def serve (g : Guarded f) : Task f (Act f ρ) → Guarded f × Except Failure (Reply f ρ)
  | .operation operation => (g.apply operation).map id (·.map .answer)
  | .size => (g, (g.size.map .size).mapError .error)
  | .isEmpty => (g, (g.isEmpty.map .isEmpty).mapError .error)
  | .withLock act => (g.withLock act).map id (·.map .result)

/-- A shared frontier asked for tasks, in the order in which the workers get at it. -/
def serveAll (g : Guarded f) :
    List (Task f (Act f ρ)) → Guarded f × List (Except Failure (Reply f ρ))
  | [] => (g, [])
  | task :: rest =>
    let served := g.serve task
    let after := served.1.serveAll rest
    (after.1, served.2 :: after.2)

end Guarded

/-! ## The first fault -/

/-- Whether a call ended in a fault. -/
def isFault : Except Failure α → Bool
  | .error (.fault _) => true
  | _ => false

theorem isFault_map {β : Type} (g : α → β) (answer : Except Failure α) :
    isFault (answer.map g) = isFault answer := by
  rcases answer with (error | fault) | a
  · rfl
  · rfl
  · rfl

/-- The replies up to the first fault, and nothing but errors behind it. -/
def untilFault : List (Except Failure α) → List (Except Failure α)
  | [] => []
  | reply :: rest =>
    reply :: if isFault reply then rest.map fun _ => .error (.error .poisoned) else untilFault rest

/-- There is a fault up to the first one exactly if there is one at all. -/
theorem any_untilFault (replies : List (Except Failure α)) :
    (untilFault replies).any isFault = replies.any isFault := by
  induction replies with
  | nil => rfl
  | cons reply rest ih =>
    unfold untilFault
    by_cases hfault : isFault reply = true
    · simp [hfault]
    · simp [hfault, ih]

namespace Guarded

theorem serve_poisoned (remains : Paired f) (task : Task f (Act f ρ)) :
    (poisoned remains).serve task = (poisoned remains, .error (.error .poisoned)) := by
  cases task <;> rfl

/-- What a call leaves of a frontier that was free. -/
def leftBy (step : Step (Paired f) f α) : Guarded f :=
  if isFault step.answer then poisoned step.state else free step.state

theorem leftBy_map {β : Type} (g : α → β) (step : Step (Paired f) f α) :
    leftBy (step.map g) = leftBy step := by
  unfold leftBy
  rw [Step.state_map, Step.map, isFault_map]

theorem withLock_free (s : Paired f) (act : Act f ρ) :
    (free s).withLock act = (leftBy (act s), (act s).answer) := by
  simp only [withLock, leftBy]
  generalize act s = step
  obtain ⟨state, (error | fault) | result, notices⟩ := step
  · rfl
  · rfl
  · rfl

/-- A free frontier answers as the plain one, and is poisoned by a fault only. -/
theorem serve_free (s : Paired f) (task : Task f (Act f ρ)) :
    (free s).serve task = (leftBy (s.serve task), (s.serve task).answer) := by
  cases task with
  | operation call =>
    simp only [serve, apply, Paired.serve, withLock_free, leftBy_map]
    rfl
  | size => rfl
  | isEmpty => rfl
  | withLock act =>
    simp only [serve, Paired.serve, withLock_free, leftBy_map]
    rfl

theorem serveAll_poisoned (remains : Paired f) (tasks : List (Task f (Act f ρ))) :
    (poisoned remains).serveAll tasks =
      (poisoned remains, tasks.map fun _ => .error (.error .poisoned)) := by
  induction tasks with
  | nil => rfl
  | cons task rest ih => simp only [serveAll, serve_poisoned, ih, List.map_cons]

/-- The replies are the plain ones up to the first fault, and there is a frontier to release if
there is none. -/
theorem serveAll_free (s : Paired f) (tasks : List (Task f (Act f ρ))) :
    ((free s).serveAll tasks).2 = untilFault (s.serveAll tasks).2 ∧
      ((free s).serveAll tasks).1.release =
        if (s.serveAll tasks).2.any isFault then .error .poisoned else .ok (s.serveAll tasks).1 := by
  induction tasks generalizing s with
  | nil => exact ⟨rfl, rfl⟩
  | cons task rest ih =>
    simp only [serveAll, Paired.serveAll, untilFault, serve_free, List.any_cons, Bool.or_eq_true]
    by_cases hfault : isFault (s.serve task).answer = true
    · have hleft : leftBy (s.serve task) = poisoned (s.serve task).state := if_pos hfault
      rw [hleft, serveAll_poisoned, if_pos hfault, if_pos (.inl hfault)]
      -- as many tasks are refused as a plain frontier would have answered
      refine ⟨?_, rfl⟩
      rw [List.map_const', List.map_const', Paired.length_serveAll]
    · have hleft : leftBy (s.serve task) = free (s.serve task).state := if_neg hfault
      obtain ⟨hreplies, hrelease⟩ := ih (s.serve task).state
      rw [hleft, hreplies, hrelease, if_neg hfault]
      exact ⟨rfl, by simp only [hfault, Bool.false_eq_true, false_or]⟩

end Guarded

/-! ## Work with the frontier held -/

/-- What a worker does with a frontier that it holds: it calls it and looks at it, and goes on with
what it has been answered and has seen. -/
inductive Work (f : Format) (ρ : Type) where
  | done (result : ρ)
  /-- The worker fails. -/
  | fail (message : String)
  | look (next : Paired f → Work f ρ)
  | call (operation : Operation f) (next : Except FrontierError (Answer f) → Work f ρ)

namespace Work

/-- The work done with a frontier. A fault of a call is one of the worker. -/
def run : Work f ρ → Act f ρ
  | done result, s => .done s result []
  | fail message, s => .faulted s (.worker message) []
  | look next, s => (next s).run s
  | call operation next, s =>
    let step := s.apply operation
    match step.answer with
    | .ok answer => (next (.ok answer)).run step.state
    | .error (.error error) => (next (.error error)).run step.state
    | .error (.fault fault) => .faulted step.state fault []

/-- The calls that the work makes of a frontier. -/
def calls : Work f ρ → Paired f → List (Operation f)
  | done _, _ | fail _, _ => []
  | look next, s => (next s).calls s
  | call operation next, s =>
    let step := s.apply operation
    operation ::
      match step.answer with
      | .ok answer => (next (.ok answer)).calls step.state
      | .error (.error error) => (next (.error error)).calls step.state
      | .error (.fault _) => []

/-- The work leaves what its calls leave. -/
theorem state_run (work : Work f ρ) (s : Paired f) :
    (work.run s).state = stateAfter Paired.apply s (work.calls s) := by
  induction work generalizing s with
  | done result => rfl
  | fail message => rfl
  | look next ih => exact ih s s
  | call operation next ih =>
    unfold run calls
    rcases h : (s.apply operation).answer with (error | fault) | answer
    · simp only [h]
      exact ih _ _
    · simp only [h]
      rfl
    · simp only [h]
      exact ih _ _

end Work

/-- The calls that a task makes of a frontier. -/
def Task.calls (s : Paired f) : Task f (Work f ρ) → List (Operation f)
  | .operation call => [call]
  | .size | .isEmpty => []
  | .withLock work => work.calls s

/-- The calls that tasks make of a frontier one after the other. -/
def Task.callsOfAll (s : Paired f) : List (Task f (Work f ρ)) → List (Operation f)
  | [] => []
  | task :: rest =>
    task.calls s ++ callsOfAll (s.serve (task.map Work.run)).state rest

theorem Task.state_serve (s : Paired f) (task : Task f (Work f ρ)) :
    (s.serve (task.map Work.run)).state = stateAfter Paired.apply s (task.calls s) := by
  cases task with
  | operation call => rfl
  | size => rfl
  | isEmpty => rfl
  | withLock work => exact work.state_run s

/-- The tasks leave what their calls leave. -/
theorem Task.state_serveAll (s : Paired f) (tasks : List (Task f (Work f ρ))) :
    (s.serveAll (tasks.map (Task.map Work.run))).1 =
      stateAfter Paired.apply s (callsOfAll s tasks) := by
  induction tasks generalizing s with
  | nil => rfl
  | cons task rest ih =>
    rw [List.map_cons, Paired.serveAll, callsOfAll, stateAfter, List.foldl_append]
    rw [ih, ← stateAfter, ← stateAfter, state_serve]

/-! ## Faults of operations -/

/-- On a sound frontier only a bound that is no number is a fault. -/
theorem Paired.Sound.isFault_iff {s : Paired f} (h : s.Sound) (operation : Operation f) :
    isFault (s.apply operation).answer = true ↔ ¬ operation.Numeric := by
  constructor
  · intro hfault hnumeric
    rcases hanswer : (s.apply operation).answer with failure | answer
    · rcases h.apply_error hanswer with ⟨rfl, -⟩ | ⟨-, bound, hb, rfl | rfl⟩
      · rw [hanswer] at hfault
        cases hfault
      · exact Bool.false_ne_true (hnumeric.symm.trans hb)
      · exact Bool.false_ne_true (hnumeric.symm.trans hb)
    · rw [hanswer] at hfault
      cases hfault
  · intro hnumeric
    cases operation with
    | setBestBound bound =>
      have hb : bound.isNaN = true := eq_true_of_ne_false hnumeric
      rw [Paired.apply, (Paired.bound_of_isNaN hb).1]
      rfl
    | updateBestBound bound =>
      have hb : bound.isNaN = true := eq_true_of_ne_false hnumeric
      rw [Paired.apply, (Paired.bound_of_isNaN hb).2]
      rfl
    | _ => exact absurd rfl hnumeric

/-- The only error that is no fault says that no cell is pending, and it leaves the shared frontier
free. -/
theorem Guarded.apply_error {s : Paired f} (h : s.Sound) {operation : Operation f}
    {error : FrontierError} (herror : (s.apply operation).answer = .error (.error error)) :
    error = .empty ∧ (Guarded.free s).apply operation = (.free s, .error (.error .empty)) := by
  rcases h.apply_error herror with ⟨heq, hwhich, hnil⟩ | ⟨heq, -⟩
  · cases heq
    have hstep : s.apply operation = .failed s .empty := by
      rcases hwhich with rfl | rfl
      · rw [Paired.apply, (Paired.next_of_nil h hnil).1]
        rfl
      · rw [Paired.apply, (Paired.next_of_nil h hnil).2]
    rw [apply, withLock_free, hstep]
    exact ⟨rfl, rfl⟩
  · cases heq

/-! ## Any tasks -/

/-- However the workers get at it, a shared frontier replies as a plain one up to the first fault and
refuses everything behind it, its release too. Of operations those with a bound that is no number are
faults, and the error that no cell is pending is none. Without a fault the frontier that is released
is the one that all calls in order leave behind, and the ledger of these calls has each pushed cell
once: handed out, contracted away, flushed or pending. -/
theorem Guarded.serves_as_plain {settings : Settings f} {start : Paired f}
    (made : Paired.ofSettings? settings = .ok start) :
    (∀ tasks : List (Task f (Act f ρ)),
      let plain := start.serveAll tasks
      let shared := (Guarded.free start).serveAll tasks
      shared.2 = untilFault plain.2 ∧
        shared.1.release = if plain.2.any isFault then .error .poisoned else .ok plain.1) ∧
    (∀ (operations : List (Operation f)) (operation : Operation f),
      let s := stateAfter Paired.apply start operations
      (isFault (s.apply operation).answer = true ↔ ¬ operation.Numeric) ∧
        ∀ error, (s.apply operation).answer = .error (.error error) →
          error = .empty ∧
            (Guarded.free s).apply operation = (.free s, .error (.error .empty))) ∧
    ∀ tasks : List (Task f (Work f ρ)),
      let operations := Task.callsOfAll start tasks
      let shared := (Guarded.free start).serveAll (tasks.map (Task.map Work.run))
      shared.2.any isFault = false →
        shared.1.release = .ok (stateAfter Paired.apply start operations) ∧
          (Ledger.ofCalls (callsFrom Paired.apply start operations)).Accounts
            (callsFrom Paired.apply start operations)
            (stateAfter Paired.apply start operations) := by
  refine ⟨Guarded.serveAll_free start, ?_, ?_⟩
  · intro operations operation s
    have sound : s.Sound := Paired.sound_after_run made operations
    exact ⟨sound.isFault_iff operation, fun error => Guarded.apply_error sound⟩
  · intro tasks operations shared hfree
    obtain ⟨hreplies, hrelease⟩ := Guarded.serveAll_free start (tasks.map (Task.map Work.run))
    rw [show shared.2 = _ from hreplies, any_untilFault] at hfree
    rw [hfree, Task.state_serveAll] at hrelease
    exact ⟨hrelease, Ledger.accounts_after_run made operations⟩

/-- Three workers: one that finds nothing, one that holds the frontier to push and to look, and one
that fails with it. -/
theorem Guarded.serves_as_plain_three :
    let settings : Settings .binary64 := ⟨⟨.weight, .tightness⟩, .strict, .infinity⟩
    let start := Paired.ofSettings settings
    let cell : Cell .binary64 := .ofRegion (.entire 1)
    let twice : Work .binary64 Nat := .call (.push cell) fun _ => .look fun s => .done s.size
    let tasks : List (Task .binary64 (Work .binary64 Nat)) :=
      [.operation .pop, .operation (.push cell), .withLock twice, .operation .pop, .size, .isEmpty]
    let failing : List (Task .binary64 (Work .binary64 Nat)) :=
      tasks ++ [.withLock (.fail "worker failed"), .operation .top, .size]
    let shared := (Guarded.free start).serveAll (tasks.map (Task.map Work.run))
    let broken := (Guarded.free start).serveAll (failing.map (Task.map Work.run))
    let operations := Task.callsOfAll start tasks
    let ledger := Ledger.ofCalls (callsFrom Paired.apply start operations)
    Paired.ofSettings? settings = .ok start ∧
      shared.2 = [.error (.error .empty), .ok (.answer (.handle ⟨0⟩)), .ok (.result 2),
        .ok (.answer (.cell cell)), .ok (.size 1), .ok (.isEmpty false)] ∧
      shared.1.release = .ok (stateAfter Paired.apply start operations) ∧
      operations = [.pop, .push cell, .push cell, .pop] ∧
      ledger.Accounts (callsFrom Paired.apply start operations)
        (stateAfter Paired.apply start operations) ∧
      ledger.out.map (·.2.number) = [0] ∧ ledger.pending.map (·.2.number) = [1] ∧
      broken.2 = shared.2 ++ [.error (.fault (.worker "worker failed")), .error (.error .poisoned),
        .error (.error .poisoned)] ∧
      broken.1.release = .error .poisoned := by
  intro settings start cell twice tasks failing shared broken operations ledger
  have made : Paired.ofSettings? settings = .ok start := rfl
  obtain ⟨replies, -, work⟩ := serves_as_plain made
  obtain ⟨released, accounts⟩ := work tasks (by decide +kernel)
  obtain ⟨-, lost⟩ := replies (failing.map (Task.map Work.run))
  refine ⟨made, by decide +kernel, released, by decide +kernel, accounts, by decide +kernel,
    by decide +kernel, by decide +kernel, ?_⟩
  exact lost.trans (if_pos (by decide +kernel))

end BranchBound
