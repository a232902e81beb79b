/-
What the operations do to a frontier with one view. It is sound if its store is and the queue ranks
exactly the pending cells at the best known bound. Every operation leaves it sound (`Sound.apply`),
and the check of a sound frontier finds nothing (`Sound.check`). As with two views one equation
tells what an operation does (`push_spec` to `updateBestBound_spec`).
-/
import BranchBound.Frontier.Single
import BranchBound.Proofs.Heap.Check
import BranchBound.Proofs.Heap.Ranks
import Mathlib.Logic.Function.Iterate

namespace BranchBound

namespace Single

variable {f : Format} {s : Single f}

/-- The store is sound and the queue ranks its pending cells at the best known bound. -/
structure Sound (s : Single f) : Prop where
  store : s.cells.Sound
  ranks : s.queue.Ranks s.ranking s.bestBound s.cells.pending

theorem sound_ofRanking (ranking : Ranking) (bestBound : Binary f) :
    (ofRanking ranking bestBound).Sound :=
  ⟨CellStore.sound_empty, Heap.ranks_empty ..⟩

/-! ## Ranking anew -/

def anew (s : Single f) : Heap f := .anew s.ranking s.bestBound s.cells.pending

theorem ranks_anew (s : Single f) : s.anew.Ranks s.ranking s.bestBound s.cells.pending :=
  (Heap.anew_spec _ _ s.cells.handles_nodup).2

theorem rebuilt_eq (s : Single f) : s.rebuilt = .ok { s with queue := s.anew } := by
  have hok := (Heap.anew_spec s.ranking s.bestBound s.cells.handles_nodup).1
  unfold rebuilt
  rw [show (s.cells.pending.map fun p => (⟨s.costOf p.cell, p.seq, p.handle⟩ : HeapEntry f)) =
    s.cells.pending.map (·.entry s.ranking s.bestBound) from rfl, hok]
  rfl

theorem reorder_eq (s : Single f) :
    s.reorder = .done { s with queue := s.anew, statistics := s.statistics.countReorder } ()
      [⟨.reorder .first, s.statistics.countReorder⟩] := by
  unfold reorder
  rw [rebuilt_eq]

/-- The queue after it was ranked anew if it depends on the best known bound. -/
def renewed (s : Single f) : Heap f := if s.ranking.dependsOnBound then s.anew else s.queue

/-- One if the costs depend on the best known bound, else zero. -/
def dependents (s : Single f) : Nat := s.ranking.dependsOnBound.toNat

/-- The view once if its costs depend on the best known bound, else nothing. -/
def dependentViews (s : Single f) : List View :=
  if s.ranking.dependsOnBound then [.first] else []

theorem length_dependentViews (s : Single f) : s.dependentViews.length = s.dependents := by
  unfold dependentViews dependents
  cases s.ranking.dependsOnBound <;> rfl

theorem reorderDependent_eq (s : Single f) :
    s.reorderDependent = .done
      { s with
        queue := s.renewed
        statistics := Statistics.countReorder^[s.dependents] s.statistics } ()
      (Notice.reorders s.statistics s.dependentViews) := by
  unfold reorderDependent renewed dependents dependentViews
  rw [reorder_eq]
  cases s.ranking.dependsOnBound <;> rfl

/-- Costs that do not depend on the best known bound need not be renewed when it changes. -/
theorem Sound.renewed (h : s.Sound) (bound : Binary f) :
    { s with bestBound := bound }.renewed.Ranks s.ranking bound s.cells.pending := by
  unfold Single.renewed
  split
  · exact ranks_anew { s with bestBound := bound }
  · rename_i hdep
    exact h.ranks.rebound (Bool.eq_false_iff.2 hdep) bound

/-! ## Putting a cell in -/

theorem push_of_insert (h : s.Sound) {cell : Cell f} {cells : CellStore f} {handle : CellHandle}
    (hinsert : s.cells.insert cell = .ok (cells, handle)) :
    ∃ queue, s.queue.push
        (Pending.entry s.ranking s.bestBound ⟨handle, cell, s.cells.nextSeq⟩) = .ok queue ∧
      s.push cell = .done
        { s with
          cells := cells
          queue := queue
          statistics := s.statistics.countPush cells.size } handle
        [⟨.push handle cell, s.statistics.countPush cells.size⟩] ∧
      { s with cells := cells, queue := queue }.Sound := by
  obtain ⟨_, _, hok, store, hfresh, hperm, _⟩ := CellStore.insert_spec h.store cell
  cases hinsert.symm.trans hok
  have fresh := CellStore.contains_eq_false_iff.1 hfresh
  obtain ⟨queue, hqueue, ranks⟩ := h.ranks.push (p := ⟨handle, cell, s.cells.nextSeq⟩) fresh
  have hqueue' : s.queue.push ⟨s.costOf cell, s.cells.nextSeq, handle⟩ = .ok queue := hqueue
  refine ⟨queue, hqueue, ?_, ⟨store, ranks.congr hperm.symm⟩⟩
  unfold push
  rw [hinsert]
  simp only [hqueue']

theorem push_spec (h : s.Sound) (cell : Cell f) :
    ∃ cells queue handle,
      s.push cell = .done
        { s with
          cells := cells
          queue := queue
          statistics := s.statistics.countPush cells.size } handle
        [⟨.push handle cell, s.statistics.countPush cells.size⟩] ∧
      { s with cells := cells, queue := queue }.Sound ∧
      s.cells.contains handle = false ∧
      cells.pending.Perm (⟨handle, cell, s.cells.nextSeq⟩ :: s.cells.pending) ∧
      cells.nextSeq = Counter.raise s.cells.nextSeq 1 := by
  obtain ⟨cells, handle, hinsert, _, hfresh, hperm, hseq⟩ := CellStore.insert_spec h.store cell
  obtain ⟨queue, _, hpush, sound⟩ := push_of_insert h hinsert
  exact ⟨cells, queue, handle, hpush, sound, hfresh, hperm, hseq⟩

/-! ## Taking the next cell out -/

/-- The pending cell is one that no other has to come out before. -/
def IsNext (s : Single f) (p : Pending f) : Prop :=
  p ∈ s.cells.pending ∧ ∀ p' ∈ s.cells.pending,
    (p'.entry s.ranking s.bestBound).precedes (p.entry s.ranking s.bestBound) = false

theorem next_of_nil (h : s.Sound) (hnil : s.cells.pending = []) :
    s.pop = .failed s .empty ∧ s.top = .error .empty ∧ s.topCost? = none := by
  have hpeek := h.ranks.peek?_eq_none_iff.2 hnil
  unfold pop top topCost?
  simp only [hpeek, Option.map_none, and_self]

theorem pop_of_peek? (h : s.Sound) {e : HeapEntry f} (he : s.queue.peek? = some e) :
    ∃ p, p.handle = e.handle ∧ s.IsNext p ∧ s.top = .ok p.cell ∧
      s.topCost? = some (s.costOf p.cell) ∧
      s.pop = .done
        { s with
          cells := s.cells.erase p.handle
          queue := s.queue.erase p.handle
          statistics := s.statistics.countPop .first } p.cell
        [⟨.pop .first p.cell, s.statistics.countPop .first⟩] := by
  obtain ⟨p, hp, rfl, hfirst⟩ := h.ranks.front he
  have hpop : s.queue.pop = s.queue.erase p.handle := Heap.pop_eq_erase h.ranks.sound.indexed he
  refine ⟨p, rfl, ⟨hp, hfirst⟩, ?_, ?_, ?_⟩
  · unfold top
    rw [he]
    simp only [Pending.entry, CellStore.get?_of_mem hp]
  · unfold topCost?
    rw [he]
    rfl
  · unfold pop
    simp only [he, Pending.entry, CellStore.remove_eq (CellStore.mem_pending_iff.1 hp), hpop]

theorem pop_spec (h : s.Sound) (hne : s.cells.pending ≠ []) :
    ∃ p, s.IsNext p ∧ s.top = .ok p.cell ∧ s.topCost? = some (s.costOf p.cell) ∧
      s.pop = .done
        { s with
          cells := s.cells.erase p.handle
          queue := s.queue.erase p.handle
          statistics := s.statistics.countPop .first } p.cell
        [⟨.pop .first p.cell, s.statistics.countPop .first⟩] := by
  obtain ⟨e, he⟩ := h.ranks.exists_front hne
  obtain ⟨p, _, hp, htop, hcost, hpop⟩ := pop_of_peek? h he
  exact ⟨p, hp, htop, hcost, hpop⟩

theorem Sound.erase (h : s.Sound) (handle : CellHandle) :
    { s with cells := s.cells.erase handle, queue := s.queue.erase handle }.Sound := by
  obtain ⟨store, hpending, _⟩ := CellStore.erase_spec h.store handle
  refine ⟨store, ?_⟩
  rw [hpending]
  exact h.ranks.erase handle

/-! ## Discarding -/

/-- The number of pending cells that cannot be better than a threshold. -/
def discardCount (s : Single f) (threshold : Binary f) : Nat :=
  s.cells.pending.countP fun p => s.ranking.dominates p.cell threshold

theorem length_dominated (s : Single f) (threshold : Binary f) :
    (s.dominated threshold).length = s.discardCount threshold :=
  List.countP_eq_length_filter.symm

/-- The store without the cells that cannot be better than a threshold. -/
def kept (s : Single f) (threshold : Binary f) : CellStore f :=
  (s.dominated threshold).foldl (fun cells p => cells.erase p.handle) s.cells

theorem kept_spec (store : s.cells.Sound) (threshold : Binary f) :
    (s.kept threshold).Sound ∧
      (s.kept threshold).pending =
        (s.cells.pending.filter fun p => !s.ranking.dominates p.cell threshold) ∧
      (s.kept threshold).nextSeq = s.cells.nextSeq :=
  CellStore.eraseAll_filter store (s.ranking.dominates · threshold) rfl

theorem dominated_of_none {threshold : Binary f} (h : s.discardCount threshold = 0) :
    s.dominated threshold = [] := by
  rwa [← length_dominated, List.length_eq_zero_iff] at h

theorem kept_of_none {threshold : Binary f} (h : s.discardCount threshold = 0) :
    s.kept threshold = s.cells := by
  unfold kept
  rw [dominated_of_none h, List.foldl_nil]

/-- A contraction ranks the cells that are left anew, unless all are left. -/
theorem contract_eq (s : Single f) (threshold : Binary f) :
    s.contract threshold =
      let statistics := s.statistics.countContraction (s.discardCount threshold)
      .done
        { s with
          cells := s.kept threshold
          queue := if s.discardCount threshold = 0 then s.queue
            else { s with cells := s.kept threshold }.anew
          statistics := statistics } (s.discardCount threshold)
        ((s.dominated threshold).map fun p => ⟨.prune p.cell .first threshold, statistics⟩) := by
  have hlength := s.length_dominated threshold
  unfold contract
  simp only [hlength]
  by_cases hnil : s.dominated threshold = []
  · -- nothing is taken out and nothing ranked anew
    have hzero : s.discardCount threshold = 0 := by rw [← hlength, hnil, List.length_nil]
    simp only [hnil, hzero, kept_of_none hzero, List.isEmpty_nil, if_true, List.foldl_nil]
  · have hne : s.discardCount threshold ≠ 0 := by
      rwa [← hlength, Ne, List.length_eq_zero_iff]
    rw [if_neg hne, if_neg (by rwa [List.isEmpty_iff])]
    simp only [rebuilt_eq]
    rfl

/-- Where nothing is discarded the queue may be left as it is, else it is ranked anew. -/
theorem Sound.kept (h : s.Sound) (threshold bound : Binary f) {queue : Heap f}
    (hqueue : queue.Ranks s.ranking bound s.cells.pending) :
    { s with
      cells := s.kept threshold
      bestBound := bound
      queue := if s.discardCount threshold = 0 then queue
        else { s with cells := s.kept threshold, bestBound := bound }.anew }.Sound := by
  refine ⟨(kept_spec h.store threshold).1, ?_⟩
  simp only
  split
  · rename_i hzero
    rw [kept_of_none hzero]
    exact hqueue
  · exact ranks_anew { s with cells := s.kept threshold, bestBound := bound }

/-! ## A new bound -/

/-- The frontier with a new best known bound, before the cells are ranked by it. -/
def rebound (s : Single f) (bound : Binary f) : Single f :=
  { s with bestBound := bound, statistics := s.statistics.countBoundUpdate }

theorem storeBestBound_eq {bound : Binary f} (hb : bound.isNaN = false) :
    s.storeBestBound bound = .done (s.rebound bound) s.bestBound [] := by
  unfold storeBestBound
  rw [hb]
  rfl

theorem bound_of_isNaN {bound : Binary f} (hb : bound.isNaN = true) :
    s.setBestBound bound = .faulted s .singleBoundIsNaN [] ∧
      s.updateBestBound bound = .faulted s .singleBoundIsNaN [] := by
  unfold setBestBound updateBestBound storeBestBound
  simp only [hb, if_true, Step.faulted_andThen, and_self]

theorem setBestBound_eq {bound : Binary f} (hb : bound.isNaN = false) :
    let statistics := Statistics.countReorder^[s.dependents] (s.rebound bound).statistics
    s.setBestBound bound = .done
      { s.rebound bound with
        queue := (s.rebound bound).renewed
        statistics := statistics } ()
      (Notice.reorders (s.rebound bound).statistics s.dependentViews ++
        [⟨.bound s.bestBound bound, statistics⟩]) :=
  Step.silent_andThen (storeBestBound_eq hb)
    (Step.andThen_eq_done (s.rebound bound).reorderDependent_eq rfl)

theorem setBestBound_spec {bound : Binary f} (hb : bound.isNaN = false) :
    ∃ notices, s.setBestBound bound = .done
      { s.rebound bound with
        queue := (s.rebound bound).renewed
        statistics := Statistics.countReorder^[s.dependents] (s.rebound bound).statistics }
      () notices :=
  ⟨_, setBestBound_eq hb⟩

/-- With an update the cells are ranked by the new bound once: if any was discarded by the
contraction, else by themselves. -/
theorem updateBestBound_eq {bound : Binary f} (hb : bound.isNaN = false) :
    let count := s.discardCount bound
    let contracted := (s.rebound bound).statistics.countContraction count
    let statistics := Statistics.countReorder^[if count = 0 then s.dependents else 0] contracted
    s.updateBestBound bound = .done
      { s.rebound bound with
        cells := s.kept bound
        queue := if count = 0 then (s.rebound bound).renewed
          else { s.rebound bound with cells := s.kept bound }.anew
        statistics := statistics } count
      ((s.dominated bound).map (fun p => ⟨.prune p.cell .first bound, contracted⟩) ++
        (Notice.reorders contracted (if count = 0 then s.dependentViews else []) ++
          [⟨.bound s.bestBound bound, statistics⟩])) := by
  have hcontract := (s.rebound bound).contract_eq bound
  rw [show (s.rebound bound).discardCount bound = s.discardCount bound from rfl,
    show (s.rebound bound).kept bound = s.kept bound from rfl,
    show (s.rebound bound).dominated bound = s.dominated bound from rfl] at hcontract
  by_cases hzero : s.discardCount bound = 0
  · simp only [hzero, if_true, kept_of_none hzero] at hcontract ⊢
    -- all cells are left, ranked by the bound before
    exact Step.silent_andThen (storeBestBound_eq hb) (Step.andThen_eq_done hcontract
      (Step.andThen_eq_done
        (reorderDependent_eq
          { s.rebound bound with statistics := (s.rebound bound).statistics.countContraction 0 })
        rfl))
  · simp only [hzero, if_false] at hcontract ⊢
    -- the contraction has ranked by the new bound
    exact Step.silent_andThen (storeBestBound_eq hb)
      (Step.andThen_eq_done hcontract (Step.andThen_eq_done (if_neg hzero) rfl))

theorem updateBestBound_spec {bound : Binary f} (hb : bound.isNaN = false) :
    ∃ notices, s.updateBestBound bound = .done
      { s.rebound bound with
        cells := s.kept bound
        queue := if s.discardCount bound = 0 then (s.rebound bound).renewed
          else { s.rebound bound with cells := s.kept bound }.anew
        statistics := Statistics.countReorder^[if s.discardCount bound = 0 then s.dependents else 0]
          ((s.rebound bound).statistics.countContraction (s.discardCount bound)) }
      (s.discardCount bound) notices :=
  ⟨_, updateBestBound_eq hb⟩

/-! ## Every operation -/

theorem Sound.apply (h : s.Sound) (operation : Operation f) : (s.apply operation).state.Sound := by
  cases operation with
  | push cell =>
    obtain ⟨cells, queue, handle, hpush, sound, _⟩ := push_spec h cell
    rw [Single.apply, Step.state_map, hpush]
    exact ⟨sound.store, sound.ranks⟩
  | pop =>
    rw [Single.apply, Step.state_map]
    by_cases hnil : s.cells.pending = []
    · rw [(next_of_nil h hnil).1]
      exact h
    · obtain ⟨p, _, _, _, hpop⟩ := pop_spec h hnil
      rw [hpop]
      exact ⟨(h.erase p.handle).store, (h.erase p.handle).ranks⟩
  | top =>
    rw [Single.apply]
    split
    · exact h
    · exact h
  | contract threshold =>
    have hkept := h.kept threshold s.bestBound h.ranks
    rw [Single.apply, Step.state_map, contract_eq]
    exact ⟨hkept.store, hkept.ranks⟩
  | setBestBound bound =>
    rw [Single.apply, Step.state_map]
    cases hb : bound.isNaN
    · obtain ⟨notices, hset⟩ := setBestBound_spec (s := s) hb
      rw [hset]
      exact ⟨h.store, h.renewed bound⟩
    · rw [(bound_of_isNaN hb).1]
      exact h
  | updateBestBound bound =>
    rw [Single.apply, Step.state_map]
    cases hb : bound.isNaN
    · obtain ⟨notices, hupdate⟩ := updateBestBound_spec (s := s) hb
      have hkept := h.kept bound bound (h.renewed bound)
      rw [hupdate]
      exact ⟨hkept.store, hkept.ranks⟩
    · rw [(bound_of_isNaN hb).2]
      exact h
  | reorder =>
    rw [Single.apply, Step.state_map, reorder_eq]
    exact ⟨h.store, s.ranks_anew⟩
  | flush => exact ⟨.clear s.cells, Heap.ranks_empty ..⟩

theorem sound_after_run (ranking : Ranking) (bestBound : Binary f) (operations : List (Operation f)) :
    (stateAfter apply (ofRanking ranking bestBound) operations).Sound :=
  stateAfter_keeps (fun _ operation h => h.apply operation) (sound_ofRanking ranking bestBound)
    operations

/-! ## The check -/

theorem Sound.check (h : s.Sound) : s.check = .ok () := by
  have hviolation := Heap.violation?_eq_none_iff.2
    ⟨h.ranks.sound.indexed, h.ranks.sound.ordered⟩
  have hsize : s.queue.size = s.cells.size := by rw [h.ranks.size, h.store.size]
  have hcell := h.ranks.find?_unknown (fun p hp => CellStore.contains_iff.2 ⟨p, hp, rfl⟩)
  unfold Single.check violation?
  simp only [hviolation, hcell, hsize, if_true]

end Single

end BranchBound
