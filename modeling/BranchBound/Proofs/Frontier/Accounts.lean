/-
The statistics of a frontier against the calls of its run. A tally counts the calls by what was asked
and what was answered, without limits. Main statement (`statistics_exact`): from a frontier without
cells on, each counter is that of the tally, cut off at the limit of the counters. So as long as no
counter has reached the limit the statistics are the tally, and then all cells that went in are
those that came out, those that were discarded and those that are pending (`Kind.tally_balance`).
-/
import BranchBound.Proofs.Frontier.Effect
import Mathlib.Algebra.GroupWithZero.Nat

namespace BranchBound

variable {f : Format}

/-! ## What a call counts for -/

namespace Operation

/-- Whether a call with that answer hands a cell out. -/
def handsOut : Operation f → Except Failure (Answer f) → Bool
  | pop, .ok _ => true
  | _, _ => false

/-- How many cells a call with that answer has contracted away. -/
def discarded : Operation f → Except Failure (Answer f) → Nat
  | contract _, .ok (.count n) | updateBestBound _, .ok (.count n) => n
  | _, _ => 0

/-- How many cells a call with that answer has flushed. -/
def flushed : Operation f → Except Failure (Answer f) → Nat
  | flush, .ok (.count n) => n
  | _, _ => 0

/-- Whether a call with that answer has gone through the cells for a contraction. -/
def contracted : Operation f → Except Failure (Answer f) → Bool
  | contract _, _ | updateBestBound _, .ok _ => true
  | _, _ => false

/-- Whether a call with that answer has stored a best known bound. -/
def updated : Operation f → Except Failure (Answer f) → Bool
  | setBestBound _, .ok _ | updateBestBound _, .ok _ => true
  | _, _ => false

end Operation

/-- The calls of a run counted. What a pop is counted under is the view whose turn it was, and the
high water is the largest number of cells that were pending after a push. -/
def tally {σ : Type} (view : σ → View) (size : σ → Nat) (calls : List (Call σ f)) : Statistics where
  pushed := calls.countP fun c => c.operation.isPush
  popped := calls.countP fun c => c.operation.handsOut c.step.answer
  poppedFirst := calls.countP fun c =>
    c.operation.handsOut c.step.answer && view c.before == .first
  poppedSecond := calls.countP fun c =>
    c.operation.handsOut c.step.answer && view c.before == .second
  pruned := (calls.map fun c => c.operation.discarded c.step.answer).sum
  flushed := (calls.map fun c => c.operation.flushed c.step.answer).sum
  contractions := calls.countP fun c => c.operation.contracted c.step.answer
  reorders := (calls.map fun c => c.step.notices.countP (·.event.kind == .reorder)).sum
  boundUpdates := calls.countP fun c => c.operation.updated c.step.answer
  highWater :=
    ((calls.filter (·.operation.isPush)).map fun c => size c.step.state).foldl max 0

namespace Statistics

/-- The counters that stop at the limit. -/
def counters (s : Statistics) : List Nat :=
  [s.pushed, s.popped, s.poppedFirst, s.poppedSecond, s.pruned, s.flushed, s.contractions,
    s.reorders, s.boundUpdates]

/-- No counter is beyond the limit. -/
def Fits (s : Statistics) : Prop := ∀ n ∈ s.counters, n ≤ Counter.limit

instance (s : Statistics) : Decidable s.Fits :=
  inferInstanceAs (Decidable (∀ n ∈ s.counters, n ≤ Counter.limit))

/-- The counters cut off at the limit. -/
def capped (s : Statistics) : Statistics where
  pushed := min s.pushed Counter.limit
  popped := min s.popped Counter.limit
  poppedFirst := min s.poppedFirst Counter.limit
  poppedSecond := min s.poppedSecond Counter.limit
  pruned := min s.pruned Counter.limit
  flushed := min s.flushed Counter.limit
  contractions := min s.contractions Counter.limit
  reorders := min s.reorders Counter.limit
  boundUpdates := min s.boundUpdates Counter.limit
  highWater := s.highWater

theorem capped_of_fits {s : Statistics} (h : s.Fits) : s.capped = s := by
  simp only [Fits, counters, List.forall_mem_cons] at h
  obtain ⟨h₁, h₂, h₃, h₄, h₅, h₆, h₇, h₈, h₉, -⟩ := h
  simp only [capped, Nat.min_eq_left, *]

/-- Two tallies together. -/
def plus (s t : Statistics) : Statistics where
  pushed := s.pushed + t.pushed
  popped := s.popped + t.popped
  poppedFirst := s.poppedFirst + t.poppedFirst
  poppedSecond := s.poppedSecond + t.poppedSecond
  pruned := s.pruned + t.pruned
  flushed := s.flushed + t.flushed
  contractions := s.contractions + t.contractions
  reorders := s.reorders + t.reorders
  boundUpdates := s.boundUpdates + t.boundUpdates
  highWater := max s.highWater t.highWater

/-- What fits with more has fitted without it. -/
theorem Fits.of_plus {s t : Statistics} (h : (s.plus t).Fits) : s.Fits := by
  simp [Fits, counters, plus] at h ⊢
  omega

end Statistics

/-- The tally of one call. -/
def account (view : View) (operation : Operation f) (answer : Except Failure (Answer f))
    (notices : List (Notice f)) (size : Nat) : Statistics where
  pushed := operation.isPush.toNat
  popped := (operation.handsOut answer).toNat
  poppedFirst := (operation.handsOut answer && view == .first).toNat
  poppedSecond := (operation.handsOut answer && view == .second).toNat
  pruned := operation.discarded answer
  flushed := operation.flushed answer
  contractions := (operation.contracted answer).toNat
  reorders := notices.countP (·.event.kind == .reorder)
  boundUpdates := (operation.updated answer).toNat
  highWater := if operation.isPush then size else 0

theorem countP_append_singleton {α : Type} (p : α → Bool) (l : List α) (a : α) :
    (l ++ [a]).countP p = l.countP p + (p a).toNat := by
  rw [List.countP_append, List.countP_singleton]
  cases p a <;> rfl

theorem tally_append_singleton {σ : Type} (view : σ → View) (size : σ → Nat)
    (calls : List (Call σ f)) (c : Call σ f) :
    tally view size (calls ++ [c]) = (tally view size calls).plus
      (account (view c.before) c.operation c.step.answer c.step.notices (size c.step.state)) := by
  cases hpush : c.operation.isPush
  all_goals
    simp only [tally, account, Statistics.plus, countP_append_singleton, List.filter_append,
      List.map_append, List.sum_append, List.foldl_append]
    simp [hpush]

/-! ## Counting up to the limit -/

namespace Statistics

variable {t : Statistics}

/-- A counter that was cut off before it is raised has to be cut off only in the end. -/
theorem raise_min (count amount : Nat) :
    Counter.raise (min count Counter.limit) amount = min (count + amount) Counter.limit := by
  unfold Counter.raise
  omega

theorem countPush_capped (pending : Nat) :
    t.capped.countPush pending =
      { t with pushed := t.pushed + 1, highWater := max t.highWater pending }.capped := by
  simp only [countPush, capped, raise_min]

theorem countPop_capped (view : View) :
    t.capped.countPop view =
      { t with
        popped := t.popped + 1
        poppedFirst := t.poppedFirst + (view == View.first).toNat
        poppedSecond := t.poppedSecond + (view == View.second).toNat }.capped := by
  cases view
  · simp only [countPop, capped, raise_min]
    rfl
  · simp only [countPop, capped, raise_min]
    rfl

theorem countContraction_capped (discarded : Nat) :
    t.capped.countContraction discarded =
      { t with contractions := t.contractions + 1, pruned := t.pruned + discarded }.capped := by
  simp only [countContraction, capped, raise_min]

theorem countBoundUpdate_capped :
    t.capped.countBoundUpdate = { t with boundUpdates := t.boundUpdates + 1 }.capped := by
  simp only [countBoundUpdate, capped, raise_min]

theorem countFlush_capped (discarded : Nat) :
    t.capped.countFlush discarded = { t with flushed := t.flushed + discarded }.capped := by
  simp only [countFlush, capped, raise_min]

theorem countReorder_capped (views : Nat) :
    countReorder^[views] t.capped = { t with reorders := t.reorders + views }.capped := by
  induction views with
  | zero => rfl
  | succ views ih =>
    rw [Function.iterate_succ_apply', ih]
    simp only [countReorder, capped, raise_min, Nat.add_assoc]

end Statistics

/-! ## One call -/

attribute [local simp] Operation.isPush Operation.handsOut Operation.discarded Operation.flushed
  Operation.contracted Operation.updated account Statistics.plus Step.done Step.failed
  Step.faulted

/-- The tally goes on beside the statistics. -/
theorem Effect.statistics_eq {a : Outline f} {operation : Operation f}
    {step : Step (Outline f) f (Answer f)} (h : Effect a operation step) {total : Statistics}
    (htotal : a.statistics = total.capped) :
    step.state.statistics = (total.plus
      (account a.view operation step.answer step.notices step.state.content.card)).capped := by
  cases h with
  | push counted => simp [counted, htotal, Statistics.countPush_capped]
  | pop content counted => simp [counted, htotal, Statistics.countPop_capped]
  | top mem => simp [htotal]
  | empty which content => rcases which with rfl | rfl <;> simp [htotal]
  | contract parts counted =>
    simp [counted, htotal, Statistics.countContraction_capped]
  | refused which nan => rcases which with rfl | rfl <;> simp [htotal]
  | setBestBound views numeric counted =>
    simp [counted, htotal, Statistics.countBoundUpdate_capped, Statistics.countReorder_capped]
  | updateBestBound views numeric parts contraction counted =>
    simp [counted, contraction, htotal, Statistics.countBoundUpdate_capped,
      Statistics.countContraction_capped, Statistics.countReorder_capped]
  | reorder views counted =>
    simp [counted, htotal, Statistics.countReorder_capped]
  | flush counted => simp [counted, htotal, Statistics.countFlush_capped]

/-- What a call puts in is added to the pending cells, and what it takes out is taken from them. -/
theorem Effect.balance {a : Outline f} {operation : Operation f}
    {step : Step (Outline f) f (Answer f)} (h : Effect a operation step) (size : Nat) :
    let t := account a.view operation step.answer step.notices size
    a.content.card + t.pushed = t.popped + t.pruned + t.flushed + step.state.content.card := by
  cases h with
  | push counted => simp
  | pop content counted => simp [content, Nat.add_comm]
  | top mem => simp
  | empty which content => rcases which with rfl | rfl <;> simp
  | contract parts counted => simp [parts.content]
  | refused which nan => rcases which with rfl | rfl <;> simp
  | setBestBound views numeric counted => simp
  | updateBestBound views numeric parts contraction counted => simp [parts.content]
  | reorder views counted => simp
  | flush counted => simp

/-- A call without an answer counts nothing. -/
theorem Effect.statistics_of_error {a : Outline f} {operation : Operation f}
    {step : Step (Outline f) f (Answer f)} (h : Effect a operation step) {failure : Failure}
    (hanswer : step.answer = .error failure) : step.state.statistics = a.statistics := by
  cases h with
  | empty which content => rfl
  | refused which nan => rfl
  | _ => cases hanswer

/-! ## Whole runs -/

/-- Every cell that is handed out is handed out by one of the views. -/
theorem popped_tally {σ : Type} (view : σ → View) (size : σ → Nat) (calls : List (Call σ f)) :
    (tally view size calls).popped =
      (tally view size calls).poppedFirst + (tally view size calls).poppedSecond := by
  induction calls with
  | nil => rfl
  | cons c rest ih =>
    simp only [tally, List.countP_cons] at ih ⊢
    rw [ih]
    cases c.operation.handsOut c.step.answer
    · simp
    · cases view c.before
      · simp
        omega
      · simp
        omega

section Runs

variable {σ : Type} (k : Kind σ f) {start : σ}

/-- From a frontier without cells on, the statistics are the tally cut off at the limit. -/
theorem Kind.statistics_eq (sound : k.Sound start) (fresh : (k.outline start).statistics = {})
    (operations : List (Operation f)) :
    (k.outline (stateAfter k.apply start operations)).statistics =
      (tally (fun s => (k.outline s).view) k.size
        (callsFrom k.apply start operations)).capped := by
  refine (k.run_induction sound (Q := fun calls s => (k.outline s).statistics =
    (tally (fun s => (k.outline s).view) k.size calls).capped) fresh ?_ operations).2
  intro calls s operation hsound ih
  -- the high water looks at the cells that are pending after the call
  rw [tally_append_singleton, ← k.card_content (k.keeps hsound operation)]
  exact (k.effect hsound operation).statistics_eq ih

/-- The cells that went in are those that came out, those that were discarded and the pending
ones. -/
theorem Kind.tally_balance (sound : k.Sound start) (empty : (k.outline start).content = 0)
    (operations : List (Operation f)) :
    let total := tally (fun s => (k.outline s).view) k.size (callsFrom k.apply start operations)
    total.pushed = total.popped + total.pruned + total.flushed +
      k.size (stateAfter k.apply start operations) := by
  refine (k.run_induction sound (Q := fun calls s =>
    let total := tally (fun s => (k.outline s).view) k.size calls
    total.pushed = total.popped + total.pruned + total.flushed + k.size s) ?_ ?_ operations).2
  · rw [← k.card_content sound, empty]
    rfl
  · intro calls s operation hsound ih
    have hcall := (k.effect hsound operation).balance (k.size (k.apply s operation).state)
    rw [tally_append_singleton]
    rw [k.card_content hsound, Step.mapState, k.card_content (k.keeps hsound operation)] at hcall
    simp only [Statistics.plus] at ih hcall ⊢
    omega

/-- While no count is beyond the limit, what is live as far as the counters tell are the pending
cells. -/
theorem Kind.live_eq (sound : k.Sound start) (fresh : (k.outline start).statistics = {})
    (empty : (k.outline start).content = 0) (operations : List (Operation f))
    (fits : (tally (fun s => (k.outline s).view) k.size (callsFrom k.apply start operations)).Fits) :
    (k.outline (stateAfter k.apply start operations)).statistics.live =
      k.size (stateAfter k.apply start operations) := by
  have hbalance := k.tally_balance sound empty operations
  rw [k.statistics_eq sound fresh, Statistics.capped_of_fits fits, Statistics.live]
  dsimp only at hbalance
  omega

end Runs

/-- The statistics are a tally, and its counts agree with each other and with the number of pending
cells. -/
structure Statistics.Exact (s total : Statistics) (pending : Nat) : Prop where
  counted : s = total
  balance : s.pushed = s.popped + s.pruned + s.flushed + pending
  views : s.popped = s.poppedFirst + s.poppedSecond

/-- After every run the statistics are the tally of the calls cut off at the limit of the counters,
and exact if no count is beyond it; a call that fails counts nothing. A frontier with one view
counts all pops under the first. -/
theorem statistics_exact :
    (∀ {settings : Settings f} {start : Paired f}, Paired.ofSettings? settings = .ok start →
      ∀ operations : List (Operation f),
        let s := stateAfter Paired.apply start operations
        let total := tally Paired.currentView Paired.size (callsFrom Paired.apply start operations)
        s.statistics = total.capped ∧
          (total.Fits → s.statistics.Exact total s.size) ∧
          ∀ operation failure, (s.apply operation).answer = .error failure →
            (s.apply operation).state.statistics = s.statistics) ∧
    ∀ (ranking : Ranking) (bestBound : Binary f) (operations : List (Operation f)),
      let start := Single.ofRanking ranking bestBound
      let s := stateAfter Single.apply start operations
      let total := tally (fun _ => .first) Single.size (callsFrom Single.apply start operations)
      s.statistics = total.capped ∧
        (total.Fits → s.statistics.Exact total s.size ∧ s.statistics.poppedSecond = 0) ∧
        ∀ operation failure, (s.apply operation).answer = .error failure →
          (s.apply operation).state.statistics = s.statistics := by
  constructor
  · intro settings start made operations s total
    have sound := Paired.sound_of_made made
    have hcapped : s.statistics = total.capped :=
      Paired.kind.statistics_eq sound (by rw [Paired.eq_of_made made]; rfl) operations
    have hbalance := Paired.kind.tally_balance sound (by rw [Paired.eq_of_made made]; rfl) operations
    refine ⟨hcapped, fun fits => ?_, fun operation failure hfailure => ?_⟩
    · rw [hcapped, Statistics.capped_of_fits fits]
      exact ⟨rfl, hbalance, popped_tally ..⟩
    · exact ((Paired.sound_after_run made operations).effect operation).statistics_of_error hfailure
  · intro ranking bestBound operations start s total
    have sound := Single.sound_ofRanking ranking bestBound
    have hcapped : s.statistics = total.capped :=
      Single.kind.statistics_eq sound rfl operations
    have hbalance := Single.kind.tally_balance sound rfl operations
    refine ⟨hcapped, fun fits => ?_, fun operation failure hfailure => ?_⟩
    · rw [hcapped, Statistics.capped_of_fits fits]
      refine ⟨⟨rfl, hbalance, popped_tally ..⟩, ?_⟩
      exact List.countP_eq_zero.2 fun c _ => by simp
    · have hsound := Single.sound_after_run ranking bestBound operations
      exact (hsound.effect operation).statistics_of_error hfailure

/-- Three cells go in, one comes out, one is discarded and one flushed; a bound that is no number and
a pop of nothing change no counter. With one view by the estimate it is the same. -/
theorem statistics_exact_mixed :
    let settings : Settings .binary64 := ⟨⟨.weight, .estimateLower⟩, .quota 1 2, .infinity⟩
    let start := Paired.ofSettings settings
    let single : Single .binary64 := .ofRanking .estimateLower .infinity
    let operations : List (Operation .binary64) :=
      [.push (.ofRegion (.entire 1)), .push (.ofRegion (.entire 2)),
        .push { Cell.ofRegion (.entire 3) with estimate := ⟨.one, .infinity⟩ }, .pop,
        .updateBestBound .nan, .updateBestBound .zero, .contract .zero, .flush]
    let total := tally Paired.currentView Paired.size (callsFrom Paired.apply start operations)
    let totalSingle := tally (fun _ => .first) Single.size (callsFrom Single.apply single operations)
    (Paired.ofSettings? settings = .ok start ∧ total.Fits ∧
      total = ⟨3, 1, 1, 0, 1, 1, 2, 0, 1, 3⟩ ∧
      (stateAfter Paired.apply start operations).statistics.Exact total 0 ∧
      ((stateAfter Paired.apply start operations).apply .pop).answer = .error (.error .empty) ∧
      ((stateAfter Paired.apply start operations).apply .pop).state.statistics =
        (stateAfter Paired.apply start operations).statistics) ∧
    totalSingle.Fits ∧ totalSingle = total ∧
      (stateAfter Single.apply single operations).statistics.Exact totalSingle 0 ∧
      ((stateAfter Single.apply single operations).apply .top).answer = .error (.error .empty) ∧
      ((stateAfter Single.apply single operations).apply .top).state.statistics =
        (stateAfter Single.apply single operations).statistics := by
  intro settings start single operations total totalSingle
  obtain ⟨paired, ofRanking⟩ := statistics_exact (f := .binary64)
  constructor
  · have made : Paired.ofSettings? settings = .ok start := rfl
    have fits : total.Fits := by decide +kernel
    have size : (stateAfter Paired.apply start operations).size = 0 := by decide +kernel
    have empty : ((stateAfter Paired.apply start operations).apply .pop).answer =
        .error (.error .empty) := by decide +kernel
    obtain ⟨-, exact, fails⟩ := paired made operations
    exact ⟨made, fits, by decide +kernel, size ▸ exact fits, empty, fails .pop _ empty⟩
  · have fits : totalSingle.Fits := by decide +kernel
    have size : (stateAfter Single.apply single operations).size = 0 := by decide +kernel
    have empty : ((stateAfter Single.apply single operations).apply .top).answer =
        .error (.error .empty) := by decide +kernel
    obtain ⟨-, exact, fails⟩ := ofRanking .estimateLower .infinity operations
    exact ⟨fits, by decide +kernel, size ▸ (exact fits).1, empty, fails .top _ empty⟩

end BranchBound
