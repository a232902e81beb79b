/-
Watched frontiers. A call asks nothing of the monitor, so a watched run answers and leaves behind what
it would with nobody watching (`Watched.sights_eq`), also if the monitor is changed between the calls.
Main statement (`monitors_only_watch`): a monitor serves its leaves as if they were the parts of one
monitor, any two monitors leave the calls of a frontier as they are, and that holds also if the monitor
hears of every notice at the moment when it is sent, in the middle of a call.
-/
import BranchBound.Proofs.Monitor.Parts

namespace BranchBound

variable {f : Format} {σ : Type}

/-- What a caller can tell after a call: the answer, the frontier, its statistics and the outcome of a
check. -/
structure Sight (σ : Type) (f : Format) where
  answer : Except Failure (Answer f)
  state : σ
  statistics : Statistics
  check : Except FrontierError Unit

namespace Watched

/-- What a caller can tell after each of some calls. Before the call number `n` the monitor is changed
by `changes n`. -/
def sights (apply : σ → Operation f → Step σ f (Answer f)) (statistics : σ → Statistics)
    (check : σ → Except FrontierError Unit) (w : Watched σ f)
    (changes : Nat → Monitor f → Monitor f) : List (Operation f) → List (Sight σ f)
  | [] => []
  | operation :: rest =>
    let changed : Watched σ f := ⟨w.state, changes 0 w.monitor⟩
    let made := changed.call (apply · operation)
    let s := made.1.state
    ⟨made.2.1, s, statistics s, check s⟩ ::
      made.1.sights apply statistics check (fun n => changes (n + 1)) rest

/-- Watched calls do what the same calls do with nobody watching. -/
theorem sights_eq (apply : σ → Operation f → Step σ f (Answer f)) (statistics : σ → Statistics)
    (check : σ → Except FrontierError Unit) (w : Watched σ f)
    (changes : Nat → Monitor f → Monitor f) (operations : List (Operation f)) :
    w.sights apply statistics check changes operations =
      (runFrom apply w.state operations).map fun step =>
        ⟨step.answer, step.state, statistics step.state, check step.state⟩ := by
  induction operations generalizing w changes with
  | nil => rfl
  | cons operation rest ih => simp [sights, runFrom, call, ih]

/-- Along a run the leaves put out what they put out as parts of one monitor. -/
theorem run_flat (apply : σ → Operation f → Step σ f (Answer f)) (start : σ) (m : Monitor f)
    (operations : List (Operation f)) :
    ((Watched.mk start m.flat).run apply operations).2 =
      ((Watched.mk start m).run apply operations).2 := by
  rw [run_eq, run_eq]
  exact (m.observeEach_flat _).1

end Watched

/-- A monitor serves its leaves as if they were the parts of one monitor. It makes no difference to the
calls of a frontier which monitor there is, and what is done to it between the calls. Nor does it make
a difference when the monitor is told: the parts of which each operation is made send one notice at
most, and a monitor that gets it before the next part begins is in the end where it would have been,
as is the frontier. -/
theorem monitors_only_watch :
    (∀ m : Monitor f, m.Transparent) ∧
    (∀ (s : Paired f) (m m' : Monitor f) (changes changes' : Nat → Monitor f → Monitor f)
      (operations : List (Operation f)),
      (Watched.mk s m).sights Paired.apply Paired.statistics Paired.check changes operations =
        (Watched.mk s m').sights Paired.apply Paired.statistics Paired.check changes' operations) ∧
    (∀ (s : Single f) (m m' : Monitor f) (changes changes' : Nat → Monitor f → Monitor f)
      (operations : List (Operation f)),
      (Watched.mk s m).sights Single.apply Single.statistics Single.check changes operations =
        (Watched.mk s m').sights Single.apply Single.statistics Single.check changes' operations) ∧
    (∀ (w : Watched (Paired f) f) (operation : Operation f),
      (Paired.workings.script operation).Prompt ∧
        (Paired.workings.script operation).watch w = w.call (Paired.apply · operation)) ∧
    ∀ (w : Watched (Single f) f) (operation : Operation f),
      (Single.workings.script operation).Prompt ∧
        (Single.workings.script operation).watch w = w.call (Single.apply · operation) := by
  refine ⟨Monitor.transparent, fun s m m' changes changes' operations => ?_,
    fun s m m' changes changes' operations => ?_, fun w operation => ?_, fun w operation => ?_⟩
  · rw [Watched.sights_eq, Watched.sights_eq]
  · rw [Watched.sights_eq, Watched.sights_eq]
  · exact ⟨Paired.prompt_workings.script operation, Paired.whole_workings.watch_script w operation⟩
  · exact ⟨Single.prompt_workings.script operation, Single.whole_workings.watch_script w operation⟩

/-- A frontier watched by a recorder and a table in one monitor, and the same one with nobody watching
until its third call. -/
theorem monitors_only_watch_nested :
    let settings : Settings .binary64 := ⟨⟨.goalLower 0, .estimateLower⟩, .firstOnly, .infinity⟩
    let start := Paired.ofSettings settings
    let nested : Monitor .binary64 :=
      .composite [.leaf (.recorder "outer"),
        .composite [.leaf (.table { interval := 0, mask := 0 }), .silent]]
    let operations : List (Operation .binary64) :=
      [.push (.ofRegion (.entire 1)), .push { Cell.ofRegion (.entire 2) with estimate := ⟨.one, .infinity⟩ },
        .updateBestBound .zero, .pop, .flush]
    nested.Transparent ∧
      (Watched.mk start nested).sights Paired.apply Paired.statistics Paired.check (fun _ m => m)
          operations =
        (Watched.mk start .silent).sights Paired.apply Paired.statistics Paired.check
          (fun n m => if n = 2 then nested else m) operations ∧
      (((Watched.mk start nested).run Paired.apply operations).2.length = 12 ∧
        ((Watched.mk start .silent).run Paired.apply operations).2 = []) ∧
      (Paired.workings.script (.updateBestBound .zero)).watch (Watched.mk start nested) =
        (Watched.mk start nested).call (Paired.apply · (.updateBestBound .zero)) := by
  intro settings start nested operations
  obtain ⟨transparent, paired, -, watched, -⟩ := monitors_only_watch (f := .binary64)
  exact ⟨transparent nested, paired start nested .silent _ _ operations,
    by decide +kernel, (watched _ _).2⟩

end BranchBound
