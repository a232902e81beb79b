/-
The slots of the heaps cannot be seen. Two frontiers that agree in all but the slots of their queues
go on side by side: every call answers the same, and again they agree in all but the slots
(`Paired.Alike.step`, `Single.Alike.step`), as long as no two pending cells have one sequence number.
So to rank the cells anew without need, or to store the best known bound once more, changes nothing
but the slots and two counters. Main statement (`layout_unobservable`): this holds of whole runs, also
if such calls are put in between.
-/
import BranchBound.Proofs.Frontier.Distinct
import BranchBound.Proofs.Heap.Unique

namespace BranchBound

variable {f : Format} {α : Type}

/-! ## Looking at statistics -/

namespace Statistics

/-- What is looked at of some statistics stays the same if they are counted on alike. -/
structure Look (look : Statistics → α) : Prop where
  push : ∀ {s t}, look s = look t → ∀ pending, look (s.countPush pending) = look (t.countPush pending)
  pop : ∀ {s t}, look s = look t → ∀ view, look (s.countPop view) = look (t.countPop view)
  contraction : ∀ {s t}, look s = look t →
    ∀ discarded, look (s.countContraction discarded) = look (t.countContraction discarded)
  reorder : ∀ {s t}, look s = look t → look s.countReorder = look t.countReorder
  boundUpdate : ∀ {s t}, look s = look t → look s.countBoundUpdate = look t.countBoundUpdate
  flush : ∀ {s t}, look s = look t →
    ∀ discarded, look (s.countFlush discarded) = look (t.countFlush discarded)

/-- The statistics without the views ranked anew and the updates of the bound. -/
def lasting (s : Statistics) : Statistics := { s with reorders := 0, boundUpdates := 0 }

theorem look_lasting : Look lasting where
  push h pending := congrArg (countPush · pending) h
  pop h view := by
    have := congrArg (countPop · view) h
    cases view <;> exact this
  contraction h discarded := congrArg (countContraction · discarded) h
  reorder h := h
  boundUpdate h := h
  flush h discarded := congrArg (countFlush · discarded) h

theorem lasting_reordered (s : Statistics) (views : Nat) :
    (countReorder^[views] s).lasting = s.lasting := by
  induction views with
  | zero => rfl
  | succ views ih =>
    rw [Function.iterate_succ_apply', ← ih]
    rfl

theorem look_nothing : Look fun _ => () where
  push _ _ := rfl
  pop _ _ := rfl
  contraction _ _ := rfl
  reorder _ := rfl
  boundUpdate _ := rfl
  flush _ _ := rfl

namespace Look

variable {look : Statistics → α} {s t : Statistics}

theorem reorders (l : Look look) (h : look s = look t) (views : Nat) :
    look (countReorder^[views] s) = look (countReorder^[views] t) := by
  induction views with
  | zero => exact h
  | succ views ih =>
    rw [Function.iterate_succ_apply', Function.iterate_succ_apply']
    exact l.reorder ih

end Look

end Statistics

/-- The notices as they look if one looks so at the statistics. -/
def Notice.seen (look : Statistics → α) (notices : List (Notice f)) : List (Event f × α) :=
  notices.map fun n => (n.event, look n.statistics)

/-- A call as it looks: its answer and its notices. -/
def Step.seen {σ β : Type} (look : Statistics → α) (step : Step σ f β) :
    Except Failure β × List (Event f × α) :=
  (step.answer, Notice.seen look step.notices)

section Seen

variable {look : Statistics → α} {s t : Statistics} {notices notices' more more' : List (Notice f)}

theorem Notice.seen_one (h : look s = look t) (event : Event f) :
    seen look [⟨event, s⟩] = seen look [⟨event, t⟩] :=
  congrArg (fun a => [(event, a)]) h

theorem Notice.seen_each {β : Type} (h : look s = look t) (event : β → Event f) (items : List β) :
    seen look (items.map fun b => ⟨event b, s⟩) = seen look (items.map fun b => ⟨event b, t⟩) := by
  simp only [seen, List.map_map, Function.comp_def, h]

theorem Notice.seen_append (first : seen look notices = seen look notices')
    (second : seen look more = seen look more') :
    seen look (notices ++ more) = seen look (notices' ++ more') := by
  simp only [seen, List.map_append] at first second ⊢
  rw [first, second]

theorem Notice.seen_reorders (l : Statistics.Look look) (h : look s = look t) (views : List View) :
    seen (f := f) look (reorders s views) = seen look (reorders t views) := by
  induction views generalizing s t with
  | nil => rfl
  | cons view rest ih =>
    exact seen_append (seen_one (l.reorder h) (.reorder view)) (ih (l.reorder h))

theorem Step.seen_done {σ β : Type} {state state' : σ} {answer : β}
    (h : Notice.seen look notices = Notice.seen look notices') :
    (done state answer notices).seen look = (done state' answer notices').seen look :=
  congrArg (Prod.mk _) h

end Seen

/-! ## Calls put in between -/

/-- A call that changes nothing but the slots of the queues. -/
inductive Idle where
  /-- Ranks all cells anew. -/
  | reorder
  /-- Stores the best known bound once more. -/
  | sameBound

def Idle.operation (bestBound : Binary f) : Idle → Operation f
  | reorder => .reorder
  | sameBound => .setBestBound bestBound

section Padded

variable {σ : Type} (apply : σ → Operation f → Step σ f (Answer f)) (bestBound : σ → Binary f)

/-- The steps of the calls of a run into which idle calls are put, but for those of the idle
calls. -/
def paddedFrom (s : σ) : List (Idle ⊕ Operation f) → List (Step σ f (Answer f))
  | [] => []
  | .inl call :: rest => paddedFrom (apply s (call.operation (bestBound s))).state rest
  | .inr operation :: rest =>
    let step := apply s operation
    step :: paddedFrom step.state rest

/-- The state after a run into which idle calls are put. -/
def stateAfterPadded (s : σ) : List (Idle ⊕ Operation f) → σ
  | [] => s
  | .inl call :: rest => stateAfterPadded (apply s (call.operation (bestBound s))).state rest
  | .inr operation :: rest => stateAfterPadded (apply s operation).state rest

/-- The calls of a run without the idle calls put into it. -/
def withoutIdle (calls : List (Idle ⊕ Operation f)) : List (Operation f) :=
  calls.filterMap Sum.getRight?

variable {apply bestBound}

/-- Two machines that go on alike, also if only the second makes an idle call, go on alike along
padded runs. -/
theorem paddedFrom_agrees {β : Type} (look : Step σ f (Answer f) → β)
    {R : List (Operation f) → σ → σ → Prop}
    (step : ∀ operation rest s t, R (operation :: rest) s t →
      look (apply s operation) = look (apply t operation) ∧
        R rest (apply s operation).state (apply t operation).state)
    (idle : ∀ (call : Idle) rest s t, R rest s t →
      R rest s (apply t (call.operation (bestBound t))).state)
    {calls : List (Idle ⊕ Operation f)} {s t : σ} (start : R (withoutIdle calls) s t) :
    (runFrom apply s (withoutIdle calls)).map look = (paddedFrom apply bestBound t calls).map look ∧
      R [] (stateAfter apply s (withoutIdle calls)) (stateAfterPadded apply bestBound t calls) := by
  induction calls generalizing s t with
  | nil => exact ⟨rfl, start⟩
  | cons call rest ih =>
    cases call with
    | inl call => exact ih (idle call _ s t start)
    | inr operation =>
      obtain ⟨hlook, hnext⟩ := step operation _ s t start
      obtain ⟨hrest, hend⟩ := ih hnext
      refine ⟨?_, hend⟩
      show look (apply s operation) :: _ = look (apply t operation) :: _
      rw [hlook]
      exact congrArg (List.cons _) hrest

end Padded

/-! ## Two views -/

namespace Paired

/-- Nothing that can be asked of the frontiers tells them apart, but for their statistics. -/
structure LooksLike (s t : Paired f) : Prop where
  cells : s.cells = t.cells
  bestBound : s.bestBound = t.bestBound
  turn : s.turn = t.turn
  recordedCost? : ∀ view h, s.recordedCost? view h = t.recordedCost? view h
  top : s.top = t.top
  text : s.text = t.text
  check : s.check = t.check

/-- The frontiers agree in all but the slots of their queues, and in the statistics as far as they
are looked at. -/
structure Alike (look : Statistics → α) (s t : Paired f) : Prop where
  left : s.Sound
  right : t.Sound
  cells : s.cells = t.cells
  rankings : s.rankings = t.rankings
  turn : s.turn = t.turn
  bestBound : s.bestBound = t.bestBound
  statistics : look s.statistics = look t.statistics

namespace Alike

variable {look : Statistics → α} {s t : Paired f}

theorem peek?_eq (h : Alike look s t) (distinct : (s.cells.pending.map (·.seq)).Nodup) (view : View) :
    (s.views.get view).peek? = (t.views.get view).peek? := by
  have hright := h.right.ranks view
  rw [← h.cells, ← h.rankings, ← h.bestBound] at hright
  exact hright.peek?_eq (h.left.ranks view) distinct

/-- One call: it looks the same, and the frontiers agree as before. -/
theorem step (h : Alike look s t) (l : Statistics.Look look)
    (distinct : (s.cells.pending.map (·.seq)).Nodup) (operation : Operation f) :
    (s.apply operation).seen look = (t.apply operation).seen look ∧
      Alike look (s.apply operation).state (t.apply operation).state := by
  have left := h.left.apply operation
  have right := h.right.apply operation
  have hpeek := h.peek?_eq distinct s.currentView
  -- what the frontiers share is one
  obtain ⟨cells, views, rankings, turn, bestBound, statistics⟩ := t
  obtain ⟨hs, ht, rfl, rfl, rfl, rfl, hlook⟩ := h
  cases operation with
  | push cell =>
    obtain ⟨cells, handle, hinsert, _⟩ := CellStore.insert_spec hs.store cell
    obtain ⟨_, _, hpush, _⟩ := push_of_insert hs hinsert
    obtain ⟨_, _, hpush', _⟩ := push_of_insert ht hinsert
    rw [Paired.apply, hpush] at left ⊢
    rw [Paired.apply, hpush'] at right ⊢
    have hcounted := l.push hlook cells.size
    exact ⟨Step.seen_done (Notice.seen_one hcounted _), left, right, rfl, rfl, rfl, rfl, hcounted⟩
  | pop =>
    cases he : (s.views.get s.currentView).peek? with
    | none =>
      have hnil := (hs.ranks _).peek?_eq_none_iff.1 he
      rw [Paired.apply, (next_of_nil hs hnil).1, Paired.apply, (next_of_nil ht hnil).1]
      exact ⟨rfl, hs, ht, rfl, rfl, rfl, rfl, hlook⟩
    | some e =>
      obtain ⟨p, hp, hmem, _, hpop⟩ := pop_of_peek? hs he
      obtain ⟨p', hp', hmem', _, hpop'⟩ := pop_of_peek? ht (hpeek.symm.trans he)
      obtain rfl : p = p' := CellStore.pending_inj hmem.1 hmem'.1 (hp.trans hp'.symm)
      rw [Paired.apply, hpop] at left ⊢
      rw [Paired.apply, hpop'] at right ⊢
      have hcounted := l.pop hlook s.currentView
      exact ⟨Step.seen_done (Notice.seen_one hcounted _), left, right, rfl, rfl, rfl, rfl, hcounted⟩
  | top =>
    cases he : (s.views.get s.currentView).peek? with
    | none =>
      have hnil := (hs.ranks _).peek?_eq_none_iff.1 he
      rw [Paired.apply, (next_of_nil hs hnil).2, Paired.apply, (next_of_nil ht hnil).2]
      exact ⟨rfl, hs, ht, rfl, rfl, rfl, rfl, hlook⟩
    | some e =>
      obtain ⟨p, hp, hmem, htop, _⟩ := pop_of_peek? hs he
      obtain ⟨p', hp', hmem', htop', _⟩ := pop_of_peek? ht (hpeek.symm.trans he)
      obtain rfl : p = p' := CellStore.pending_inj hmem.1 hmem'.1 (hp.trans hp'.symm)
      rw [Paired.apply, htop, Paired.apply, htop']
      exact ⟨rfl, hs, ht, rfl, rfl, rfl, rfl, hlook⟩
  | contract threshold =>
    rw [Paired.apply, contract_eq] at left ⊢
    rw [Paired.apply, contract_eq] at right ⊢
    have hcounted := l.contraction hlook (s.discardCount threshold)
    exact ⟨Step.seen_done (Notice.seen_each hcounted _ (s.dominated threshold)), left, right, rfl,
      rfl, rfl, rfl, hcounted⟩
  | setBestBound bound =>
    cases hb : bound.isNaN
    · rw [Paired.apply, setBestBound_eq hb] at left ⊢
      rw [Paired.apply, setBestBound_eq hb] at right ⊢
      have hupdated := l.boundUpdate hlook
      have hcounted := l.reorders hupdated s.dependents
      exact ⟨Step.seen_done (Notice.seen_append (Notice.seen_reorders l hupdated s.dependentViews)
        (Notice.seen_one hcounted _)), left, right, rfl, rfl, rfl, rfl, hcounted⟩
    · rw [Paired.apply, (bound_of_isNaN hb).1, Paired.apply, (bound_of_isNaN hb).1]
      exact ⟨rfl, hs, ht, rfl, rfl, rfl, rfl, hlook⟩
  | updateBestBound bound =>
    cases hb : bound.isNaN
    · rw [Paired.apply, updateBestBound_eq hb] at left ⊢
      rw [Paired.apply, updateBestBound_eq hb] at right ⊢
      have hcontracted := l.contraction (l.boundUpdate hlook) (s.discardCount bound)
      have hcounted := l.reorders hcontracted
        (if s.discardCount bound = 0 then s.dependents else 0)
      exact ⟨Step.seen_done (Notice.seen_append
        (Notice.seen_each hcontracted _ (s.dominated bound))
        (Notice.seen_append (Notice.seen_reorders l hcontracted _) (Notice.seen_one hcounted _))),
        left, right, rfl, rfl, rfl, rfl, hcounted⟩
    · rw [Paired.apply, (bound_of_isNaN hb).2, Paired.apply, (bound_of_isNaN hb).2]
      exact ⟨rfl, hs, ht, rfl, rfl, rfl, rfl, hlook⟩
  | reorder =>
    rw [Paired.apply, reorder_eq] at left ⊢
    rw [Paired.apply, reorder_eq] at right ⊢
    exact ⟨Step.seen_done (Notice.seen_reorders l hlook _), left, right, rfl, rfl, rfl, rfl,
      l.reorder (l.reorder hlook)⟩
  | flush =>
    have hcounted := l.flush hlook s.cells.size
    exact ⟨Step.seen_done (Notice.seen_one hcounted _), left, right, rfl, rfl, rfl, rfl, hcounted⟩

/-- A call that is put in between changes nothing that lasts. -/
theorem idle (h : Alike Statistics.lasting s t) (call : Idle) :
    Alike Statistics.lasting s (t.apply (call.operation t.bestBound)).state := by
  have right := h.right.apply (call.operation t.bestBound)
  cases call with
  | reorder =>
    rw [Idle.operation, Paired.apply, reorder_eq] at right ⊢
    exact ⟨h.left, right, h.cells, h.rankings, h.turn, h.bestBound, h.statistics⟩
  | sameBound =>
    rw [Idle.operation, Paired.apply] at right ⊢
    cases hb : t.bestBound.isNaN
    · rw [setBestBound_eq hb] at right ⊢
      exact ⟨h.left, right, h.cells, h.rankings, h.turn, h.bestBound,
        h.statistics.trans
          (Statistics.lasting_reordered t.statistics.countBoundUpdate t.dependents).symm⟩
    · rw [(bound_of_isNaN hb).1]
      exact h

theorem looksLike (h : Alike look s t)
    (distinct : (s.cells.pending.map (·.seq)).Nodup) : s.LooksLike t := by
  have hpeek := h.peek?_eq distinct s.currentView
  obtain ⟨cells, views, rankings, turn, bestBound, statistics⟩ := t
  obtain ⟨hs, ht, rfl, rfl, rfl, rfl, hlook⟩ := h
  refine ⟨rfl, rfl, rfl, fun view handle => ?_, ?_, ?_, ?_⟩
  · exact (ht.ranks view).cost?_alike (hs.ranks view) handle
  · unfold top
    rw [hpeek]
    rfl
  · have hsorted : s.views.first.sorted = views.first.sorted :=
      (ht.ranks .first).sorted_eq (hs.ranks .first) distinct
    unfold text
    rw [hsorted]
    rfl
  · rw [hs.check, ht.check]

/-- Whole runs look the same. -/
theorem run (h : Alike (fun _ => ()) s t) {operations : List (Operation f)}
    (distinct : DistinctAlong Paired.apply Paired.cells s operations) :
    (runFrom Paired.apply s operations).map (Step.seen fun _ => ()) =
      (runFrom Paired.apply t operations).map (Step.seen fun _ => ()) ∧
    (stateAfter Paired.apply s operations).LooksLike (stateAfter Paired.apply t operations) := by
  obtain ⟨hrun, hend, hdistinct⟩ := runFrom_agrees_along _ _
    (R := fun rest s t => Alike (fun _ => ()) s t ∧ DistinctAlong Paired.apply Paired.cells s rest)
    (fun operation rest s t ⟨h, distinct⟩ => by
      obtain ⟨hseen, hnext⟩ := h.step Statistics.look_nothing distinct.head operation
      exact ⟨hseen, hnext, distinct.tail⟩)
    ⟨h, distinct⟩
  exact ⟨hrun, hend.looksLike hdistinct.head⟩

/-- Whole runs look the same but for calls put in between. -/
theorem padded_run (h : Alike Statistics.lasting s t) {calls : List (Idle ⊕ Operation f)}
    (distinct : DistinctAlong Paired.apply Paired.cells s (withoutIdle calls)) :
    let plain := stateAfter Paired.apply s (withoutIdle calls)
    let padded := stateAfterPadded Paired.apply Paired.bestBound t calls
    (runFrom Paired.apply s (withoutIdle calls)).map (Step.seen Statistics.lasting) =
      (paddedFrom Paired.apply Paired.bestBound t calls).map (Step.seen Statistics.lasting) ∧
    plain.LooksLike padded ∧ plain.statistics.lasting = padded.statistics.lasting := by
  obtain ⟨hrun, hend, hdistinct⟩ := paddedFrom_agrees (Step.seen Statistics.lasting)
    (R := fun rest s t => Alike Statistics.lasting s t ∧ DistinctAlong Paired.apply Paired.cells s rest)
    (fun operation rest s t ⟨h, distinct⟩ => by
      obtain ⟨hseen, hnext⟩ := h.step Statistics.look_lasting distinct.head operation
      exact ⟨hseen, hnext, distinct.tail⟩)
    (fun call rest s t ⟨h, distinct⟩ => ⟨h.idle call, distinct⟩)
    ⟨h, distinct⟩
  exact ⟨hrun, hend.looksLike hdistinct.head, hend.statistics⟩

end Alike

end Paired

/-! ## One view -/

namespace Single

/-- Nothing that can be asked of the frontiers tells them apart, but for their statistics. -/
structure LooksLike (s t : Single f) : Prop where
  cells : s.cells = t.cells
  bestBound : s.bestBound = t.bestBound
  recordedCost? : ∀ h, s.recordedCost? h = t.recordedCost? h
  top : s.top = t.top
  topCost? : s.topCost? = t.topCost?
  text : s.text = t.text
  check : s.check = t.check

/-- The frontiers agree in all but the slots of their queues, and in the statistics as far as they
are looked at. -/
structure Alike (look : Statistics → α) (s t : Single f) : Prop where
  left : s.Sound
  right : t.Sound
  cells : s.cells = t.cells
  ranking : s.ranking = t.ranking
  bestBound : s.bestBound = t.bestBound
  statistics : look s.statistics = look t.statistics

namespace Alike

variable {look : Statistics → α} {s t : Single f}

theorem peek?_eq (h : Alike look s t) (distinct : (s.cells.pending.map (·.seq)).Nodup) :
    s.queue.peek? = t.queue.peek? := by
  have hright := h.right.ranks
  rw [← h.cells, ← h.ranking, ← h.bestBound] at hright
  exact hright.peek?_eq h.left.ranks distinct

/-- One call: it looks the same, and the frontiers agree as before. -/
theorem step (h : Alike look s t) (l : Statistics.Look look)
    (distinct : (s.cells.pending.map (·.seq)).Nodup) (operation : Operation f) :
    (s.apply operation).seen look = (t.apply operation).seen look ∧
      Alike look (s.apply operation).state (t.apply operation).state := by
  have left := h.left.apply operation
  have right := h.right.apply operation
  have hpeek := h.peek?_eq distinct
  -- what the frontiers share is one
  obtain ⟨cells, queue, ranking, bestBound, statistics⟩ := t
  obtain ⟨hs, ht, rfl, rfl, rfl, hlook⟩ := h
  cases operation with
  | push cell =>
    obtain ⟨cells, handle, hinsert, _⟩ := CellStore.insert_spec hs.store cell
    obtain ⟨_, _, hpush, _⟩ := push_of_insert hs hinsert
    obtain ⟨_, _, hpush', _⟩ := push_of_insert ht hinsert
    rw [Single.apply, hpush] at left ⊢
    rw [Single.apply, hpush'] at right ⊢
    have hcounted := l.push hlook cells.size
    exact ⟨Step.seen_done (Notice.seen_one hcounted _), left, right, rfl, rfl, rfl, hcounted⟩
  | pop =>
    cases he : s.queue.peek? with
    | none =>
      have hnil := hs.ranks.peek?_eq_none_iff.1 he
      rw [Single.apply, (next_of_nil hs hnil).1, Single.apply, (next_of_nil ht hnil).1]
      exact ⟨rfl, hs, ht, rfl, rfl, rfl, hlook⟩
    | some e =>
      obtain ⟨p, hp, hmem, _, _, hpop⟩ := pop_of_peek? hs he
      obtain ⟨p', hp', hmem', _, _, hpop'⟩ := pop_of_peek? ht (hpeek.symm.trans he)
      obtain rfl : p = p' := CellStore.pending_inj hmem.1 hmem'.1 (hp.trans hp'.symm)
      rw [Single.apply, hpop] at left ⊢
      rw [Single.apply, hpop'] at right ⊢
      have hcounted := l.pop hlook .first
      exact ⟨Step.seen_done (Notice.seen_one hcounted _), left, right, rfl, rfl, rfl, hcounted⟩
  | top =>
    cases he : s.queue.peek? with
    | none =>
      have hnil := hs.ranks.peek?_eq_none_iff.1 he
      rw [Single.apply, (next_of_nil hs hnil).2.1, Single.apply, (next_of_nil ht hnil).2.1]
      exact ⟨rfl, hs, ht, rfl, rfl, rfl, hlook⟩
    | some e =>
      obtain ⟨p, hp, hmem, htop, _⟩ := pop_of_peek? hs he
      obtain ⟨p', hp', hmem', htop', _⟩ := pop_of_peek? ht (hpeek.symm.trans he)
      obtain rfl : p = p' := CellStore.pending_inj hmem.1 hmem'.1 (hp.trans hp'.symm)
      rw [Single.apply, htop, Single.apply, htop']
      exact ⟨rfl, hs, ht, rfl, rfl, rfl, hlook⟩
  | contract threshold =>
    rw [Single.apply, contract_eq] at left ⊢
    rw [Single.apply, contract_eq] at right ⊢
    have hcounted := l.contraction hlook (s.discardCount threshold)
    exact ⟨Step.seen_done (Notice.seen_each hcounted _ (s.dominated threshold)), left, right, rfl,
      rfl, rfl, hcounted⟩
  | setBestBound bound =>
    cases hb : bound.isNaN
    · rw [Single.apply, setBestBound_eq hb] at left ⊢
      rw [Single.apply, setBestBound_eq hb] at right ⊢
      have hupdated := l.boundUpdate hlook
      have hcounted := l.reorders hupdated s.dependents
      exact ⟨Step.seen_done (Notice.seen_append (Notice.seen_reorders l hupdated s.dependentViews)
        (Notice.seen_one hcounted _)), left, right, rfl, rfl, rfl, hcounted⟩
    · rw [Single.apply, (bound_of_isNaN hb).1, Single.apply, (bound_of_isNaN hb).1]
      exact ⟨rfl, hs, ht, rfl, rfl, rfl, hlook⟩
  | updateBestBound bound =>
    cases hb : bound.isNaN
    · rw [Single.apply, updateBestBound_eq hb] at left ⊢
      rw [Single.apply, updateBestBound_eq hb] at right ⊢
      have hcontracted := l.contraction (l.boundUpdate hlook) (s.discardCount bound)
      have hcounted := l.reorders hcontracted
        (if s.discardCount bound = 0 then s.dependents else 0)
      exact ⟨Step.seen_done (Notice.seen_append
        (Notice.seen_each hcontracted _ (s.dominated bound))
        (Notice.seen_append (Notice.seen_reorders l hcontracted _) (Notice.seen_one hcounted _))),
        left, right, rfl, rfl, rfl, hcounted⟩
    · rw [Single.apply, (bound_of_isNaN hb).2, Single.apply, (bound_of_isNaN hb).2]
      exact ⟨rfl, hs, ht, rfl, rfl, rfl, hlook⟩
  | reorder =>
    rw [Single.apply, reorder_eq] at left ⊢
    rw [Single.apply, reorder_eq] at right ⊢
    have hcounted := l.reorder hlook
    exact ⟨Step.seen_done (Notice.seen_one hcounted _), left, right, rfl, rfl, rfl, hcounted⟩
  | flush =>
    have hcounted := l.flush hlook s.cells.size
    exact ⟨Step.seen_done (Notice.seen_one hcounted _), left, right, rfl, rfl, rfl, hcounted⟩

/-- A call that is put in between changes nothing that lasts. -/
theorem idle (h : Alike Statistics.lasting s t) (call : Idle) :
    Alike Statistics.lasting s (t.apply (call.operation t.bestBound)).state := by
  have right := h.right.apply (call.operation t.bestBound)
  cases call with
  | reorder =>
    rw [Idle.operation, Single.apply, reorder_eq] at right ⊢
    exact ⟨h.left, right, h.cells, h.ranking, h.bestBound, h.statistics⟩
  | sameBound =>
    rw [Idle.operation, Single.apply] at right ⊢
    cases hb : t.bestBound.isNaN
    · rw [setBestBound_eq hb] at right ⊢
      exact ⟨h.left, right, h.cells, h.ranking, h.bestBound,
        h.statistics.trans
          (Statistics.lasting_reordered t.statistics.countBoundUpdate t.dependents).symm⟩
    · rw [(bound_of_isNaN hb).1]
      exact h

theorem looksLike (h : Alike look s t)
    (distinct : (s.cells.pending.map (·.seq)).Nodup) : s.LooksLike t := by
  have hpeek := h.peek?_eq distinct
  obtain ⟨cells, queue, ranking, bestBound, statistics⟩ := t
  obtain ⟨hs, ht, rfl, rfl, rfl, hlook⟩ := h
  refine ⟨rfl, rfl, fun handle => ?_, ?_, ?_, ?_, ?_⟩
  · exact ht.ranks.cost?_alike hs.ranks handle
  · unfold top
    rw [hpeek]
  · unfold topCost?
    rw [hpeek]
  · have hsorted : s.queue.sorted = queue.sorted := ht.ranks.sorted_eq hs.ranks distinct
    unfold text
    rw [hsorted]
    rfl
  · rw [hs.check, ht.check]

/-- Whole runs look the same. -/
theorem run (h : Alike (fun _ => ()) s t) {operations : List (Operation f)}
    (distinct : DistinctAlong Single.apply Single.cells s operations) :
    (runFrom Single.apply s operations).map (Step.seen fun _ => ()) =
      (runFrom Single.apply t operations).map (Step.seen fun _ => ()) ∧
    (stateAfter Single.apply s operations).LooksLike (stateAfter Single.apply t operations) := by
  obtain ⟨hrun, hend, hdistinct⟩ := runFrom_agrees_along _ _
    (R := fun rest s t => Alike (fun _ => ()) s t ∧ DistinctAlong Single.apply Single.cells s rest)
    (fun operation rest s t ⟨h, distinct⟩ => by
      obtain ⟨hseen, hnext⟩ := h.step Statistics.look_nothing distinct.head operation
      exact ⟨hseen, hnext, distinct.tail⟩)
    ⟨h, distinct⟩
  exact ⟨hrun, hend.looksLike hdistinct.head⟩

/-- Whole runs look the same but for calls put in between. -/
theorem padded_run (h : Alike Statistics.lasting s t) {calls : List (Idle ⊕ Operation f)}
    (distinct : DistinctAlong Single.apply Single.cells s (withoutIdle calls)) :
    let plain := stateAfter Single.apply s (withoutIdle calls)
    let padded := stateAfterPadded Single.apply Single.bestBound t calls
    (runFrom Single.apply s (withoutIdle calls)).map (Step.seen Statistics.lasting) =
      (paddedFrom Single.apply Single.bestBound t calls).map (Step.seen Statistics.lasting) ∧
    plain.LooksLike padded ∧ plain.statistics.lasting = padded.statistics.lasting := by
  obtain ⟨hrun, hend, hdistinct⟩ := paddedFrom_agrees (Step.seen Statistics.lasting)
    (R := fun rest s t => Alike Statistics.lasting s t ∧ DistinctAlong Single.apply Single.cells s rest)
    (fun operation rest s t ⟨h, distinct⟩ => by
      obtain ⟨hseen, hnext⟩ := h.step Statistics.look_lasting distinct.head operation
      exact ⟨hseen, hnext, distinct.tail⟩)
    (fun call rest s t ⟨h, distinct⟩ => ⟨h.idle call, distinct⟩)
    ⟨h, distinct⟩
  exact ⟨hrun, hend.looksLike hdistinct.head, hend.statistics⟩

end Alike

end Single

/-! ## Runs -/

/-- From frontiers that agree in all but the slots of their queues every run looks the same, and so
do the frontiers after it, as long as the sequence numbers of pending cells are distinct; to put in
calls that rank the cells anew or store the same bound once more changes only how often these are
counted. The sequence numbers are distinct as long as there are fewer pushes than such numbers. -/
theorem layout_unobservable :
    (∀ s t : Paired f, s.Sound → t.Sound → s.cells = t.cells → s.rankings = t.rankings →
      s.turn = t.turn → s.bestBound = t.bestBound →
      ∀ operations, DistinctAlong Paired.apply Paired.cells s operations →
        (runFrom Paired.apply s operations).map (Step.seen fun _ => ()) =
          (runFrom Paired.apply t operations).map (Step.seen fun _ => ()) ∧
        (stateAfter Paired.apply s operations).LooksLike (stateAfter Paired.apply t operations)) ∧
    (∀ s : Paired f, s.Sound → ∀ calls : List (Idle ⊕ Operation f),
      DistinctAlong Paired.apply Paired.cells s (withoutIdle calls) →
        let plain := stateAfter Paired.apply s (withoutIdle calls)
        let padded := stateAfterPadded Paired.apply Paired.bestBound s calls
        (runFrom Paired.apply s (withoutIdle calls)).map (Step.seen Statistics.lasting) =
          (paddedFrom Paired.apply Paired.bestBound s calls).map (Step.seen Statistics.lasting) ∧
        plain.LooksLike padded ∧ plain.statistics.lasting = padded.statistics.lasting) ∧
    (∀ {settings : Settings f} {start : Paired f}, Paired.ofSettings? settings = .ok start →
      ∀ operations : List (Operation f), operations.countP Operation.isPush < UInt64.size - 1 →
        DistinctAlong Paired.apply Paired.cells start operations) ∧
    (∀ s t : Single f, s.Sound → t.Sound → s.cells = t.cells → s.ranking = t.ranking →
      s.bestBound = t.bestBound →
      ∀ operations, DistinctAlong Single.apply Single.cells s operations →
        (runFrom Single.apply s operations).map (Step.seen fun _ => ()) =
          (runFrom Single.apply t operations).map (Step.seen fun _ => ()) ∧
        (stateAfter Single.apply s operations).LooksLike (stateAfter Single.apply t operations)) ∧
    (∀ s : Single f, s.Sound → ∀ calls : List (Idle ⊕ Operation f),
      DistinctAlong Single.apply Single.cells s (withoutIdle calls) →
        let plain := stateAfter Single.apply s (withoutIdle calls)
        let padded := stateAfterPadded Single.apply Single.bestBound s calls
        (runFrom Single.apply s (withoutIdle calls)).map (Step.seen Statistics.lasting) =
          (paddedFrom Single.apply Single.bestBound s calls).map (Step.seen Statistics.lasting) ∧
        plain.LooksLike padded ∧ plain.statistics.lasting = padded.statistics.lasting) ∧
    ∀ (ranking : Ranking) (bestBound : Binary f) (operations : List (Operation f)),
      operations.countP Operation.isPush < UInt64.size - 1 →
        DistinctAlong Single.apply Single.cells (.ofRanking ranking bestBound) operations := by
  refine ⟨fun s t hs ht hcells hrankings hturn hbound operations distinct => ?_,
    fun s hs calls distinct => ?_, fun made _ few => Paired.distinctAlong_of_made made few,
    fun s t hs ht hcells hranking hbound operations distinct => ?_,
    fun s hs calls distinct => ?_,
    fun ranking bestBound _ few => Single.distinctAlong_ofRanking ranking bestBound few⟩
  · exact Paired.Alike.run ⟨hs, ht, hcells, hrankings, hturn, hbound, rfl⟩ distinct
  · exact Paired.Alike.padded_run ⟨hs, hs, rfl, rfl, rfl, rfl, rfl⟩ distinct
  · exact Single.Alike.run ⟨hs, ht, hcells, hranking, hbound, rfl⟩ distinct
  · exact Single.Alike.padded_run ⟨hs, hs, rfl, rfl, rfl, rfl⟩ distinct

/-- Four cells stand in other slots after they were ranked anew, and yet come out the same, also if
they are ranked anew and the bound is stored once more in between. -/
theorem layout_unobservable_four :
    let settings : Settings .binary64 := .ofRankings .weight .tightness
    let start := Paired.ofSettings settings
    let single : Single .binary64 := .ofRanking .weight .infinity
    let weighted (n : Nat) (weight : Binary .binary64) : Operation .binary64 :=
      .push { Cell.ofRegion (.entire n) with weight := weight }
    let pushes := [weighted 1 .zero, weighted 2 .one, weighted 3 .infinity, weighted 4 .one]
    let operations : List (Operation .binary64) := [.pop, .updateBestBound .zero, .top, .pop]
    let calls : List (Idle ⊕ Operation .binary64) :=
      [.inr .pop, .inl .reorder, .inr (.updateBestBound .zero), .inl .sameBound, .inr .top, .inr .pop]
    ((stateAfter Paired.apply start pushes).views ≠
        (stateAfter Paired.apply start (pushes ++ [.reorder])).views ∧
      (runFrom Paired.apply (stateAfter Paired.apply start pushes) operations).map
          (Step.seen fun _ => ()) =
        (runFrom Paired.apply (stateAfter Paired.apply start (pushes ++ [.reorder])) operations).map
          (Step.seen fun _ => ()) ∧
      (runFrom Paired.apply (stateAfter Paired.apply start pushes) operations).map
          (Step.seen Statistics.lasting) =
        (paddedFrom Paired.apply Paired.bestBound (stateAfter Paired.apply start pushes) calls).map
          (Step.seen Statistics.lasting)) ∧
    (stateAfter Single.apply single pushes).queue ≠
        (stateAfter Single.apply single (pushes ++ [.reorder])).queue ∧
      (runFrom Single.apply (stateAfter Single.apply single pushes) operations).map
          (Step.seen fun _ => ()) =
        (runFrom Single.apply (stateAfter Single.apply single (pushes ++ [.reorder])) operations).map
          (Step.seen fun _ => ()) ∧
      (runFrom Single.apply (stateAfter Single.apply single pushes) operations).map
          (Step.seen Statistics.lasting) =
        (paddedFrom Single.apply Single.bestBound (stateAfter Single.apply single pushes) calls).map
          (Step.seen Statistics.lasting) := by
  intro settings start single weighted pushes operations calls
  obtain ⟨alike, padded, few, alike', padded', few'⟩ := layout_unobservable (f := .binary64)
  constructor
  · have made : Paired.ofSettings? settings = .ok start := rfl
    have sound := Paired.sound_after_run made
    have distinct := (few made (pushes ++ operations) (by decide)).drop
    obtain ⟨runs, -⟩ := alike _ _ (sound pushes) (sound (pushes ++ [.reorder])) (by decide +kernel)
      (by decide +kernel) (by decide +kernel) (by decide +kernel) operations distinct
    exact ⟨by decide +kernel, runs, (padded _ (sound pushes) calls distinct).1⟩
  · have sound := Single.sound_after_run (f := .binary64) .weight .infinity
    have distinct := (few' .weight .infinity (pushes ++ operations) (by decide)).drop
    obtain ⟨runs, -⟩ := alike' _ _ (sound pushes) (sound (pushes ++ [.reorder])) (by decide +kernel)
      (by decide +kernel) (by decide +kernel) operations distinct
    exact ⟨by decide +kernel, runs, (padded' _ (sound pushes) calls distinct).1⟩

end BranchBound
