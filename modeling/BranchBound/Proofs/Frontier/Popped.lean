/-
Popping a frontier until it is empty. What comes out depends only on what pops look at
(`poppedFrom_congr`). From a frontier with one view whose cells have distinct sequence numbers they
come out in the one order in which none precedes one before it (`Single.LinedUp.popsInOrder`).
-/
import BranchBound.Proofs.Frontier.Single
import BranchBound.Proofs.Heap.Unique

namespace BranchBound

variable {f : Format} {σ : Type}

/-- The cells that so many pops hand out, up to the first that finds none. -/
def poppedFrom (apply : σ → Operation f → Step σ f (Answer f)) (s : σ) : Nat → List (Cell f)
  | 0 => []
  | pops + 1 =>
    match (apply s .pop).answer with
    | .ok (.cell cell) => cell :: poppedFrom apply (apply s .pop).state pops
    | _ => []

/-- States of which a pop says the same and leaves two of the kind give out the same cells. -/
theorem poppedFrom_congr {apply : σ → Operation f → Step σ f (Answer f)} {R : σ → σ → Prop}
    (step : ∀ s t, R s t → (apply s .pop).answer = (apply t .pop).answer ∧
      R (apply s .pop).state (apply t .pop).state)
    {s t : σ} (h : R s t) (pops : Nat) : poppedFrom apply s pops = poppedFrom apply t pops := by
  induction pops generalizing s t with
  | zero => rfl
  | succ pops ih =>
    obtain ⟨hanswer, hnext⟩ := step s t h
    unfold poppedFrom
    rw [hanswer, ih hnext]

/-- So many pops hand out the first cells of a list, and leave the others pending. -/
structure PopsInOrder (apply : σ → Operation f → Step σ f (Answer f)) (cells : σ → CellStore f)
    (s : σ) (l : List (Pending f)) : Prop where
  popped : ∀ pops, poppedFrom apply s pops = (l.take pops).map (·.cell)
  left : ∀ pops,
    (cells (stateAfter apply s (List.replicate pops .pop))).pending.Perm (l.drop pops)

/-- If a pop hands out the first cell of a list and leaves the others so, pops hand out the whole list
in order. -/
theorem popsInOrder_of_step {apply : σ → Operation f → Step σ f (Answer f)}
    {cells : σ → CellStore f} {R : List (Pending f) → σ → Prop}
    (perm : ∀ {l s}, R l s → l.Perm (cells s).pending)
    (ended : ∀ {s}, R [] s → apply s .pop = .failed s .empty)
    (step : ∀ {p l s}, R (p :: l) s → ∃ next notices,
      apply s .pop = .done next (.cell p.cell) notices ∧ R l next)
    {l : List (Pending f)} {s : σ} (h : R l s) : PopsInOrder apply cells s l := by
  constructor
  · intro pops
    induction pops generalizing l s with
    | zero => rfl
    | succ pops ih =>
      unfold poppedFrom
      cases l with
      | nil =>
        rw [ended h]
        rfl
      | cons p l =>
        obtain ⟨next, notices, hpop, hnext⟩ := step h
        rw [hpop]
        exact congrArg (List.cons p.cell) (ih hnext)
  · intro pops
    induction pops generalizing l s with
    | zero => exact (perm h).symm
    | succ pops ih =>
      cases l with
      | nil =>
        rw [List.replicate_succ, stateAfter, List.foldl_cons, ended h]
        exact (ih h).trans (.of_eq List.drop_nil)
      | cons p l =>
        obtain ⟨next, notices, hpop, hnext⟩ := step h
        rw [List.replicate_succ, stateAfter, List.foldl_cons, hpop]
        exact ih hnext

namespace Single

variable {s : Single f} {l : List (Pending f)}

/-- The pending cells in an order in which none precedes one before it. -/
structure InPopOrder (l : List (Pending f)) (s : Single f) : Prop where
  perm : l.Perm s.cells.pending
  sorted : l.Pairwise fun p p' =>
    (p'.entry s.ranking s.bestBound).precedes (p.entry s.ranking s.bestBound) = false

theorem exists_inPopOrder (s : Single f) : ∃ l, InPopOrder l s := by
  let less := fun p p' : Pending f =>
    (p.entry s.ranking s.bestBound).precedes (p'.entry s.ranking s.bestBound)
  refine ⟨Sorting.insertion less s.cells.pending, Sorting.insertion_perm less _,
    Sorting.insertion_pairwise (P := fun _ => True) ?_ ?_ (fun _ _ => trivial)⟩
  · intro p p' _ _
    exact HeapEntry.precedes_asymm (s.ranking.isNaN_cost ..) (s.ranking.isNaN_cost ..)
  · intro p p' p'' _ _ _
    exact HeapEntry.precedes_cotrans (s.ranking.isNaN_cost ..) (s.ranking.isNaN_cost ..)
      (s.ranking.isNaN_cost ..)

/-- A sound frontier whose cells, with distinct sequence numbers, are in that order. -/
structure LinedUp (l : List (Pending f)) (s : Single f) : Prop where
  order : InPopOrder l s
  sound : s.Sound
  distinct : (s.cells.pending.map (·.seq)).Nodup

namespace LinedUp

variable {p : Pending f}

/-- No pending cell but the first one can be next. -/
theorem eq_of_isNext (h : LinedUp (p :: l) s) {p' : Pending f} (hnext : s.IsNext p') : p' = p := by
  have hp : p ∈ s.cells.pending := h.order.perm.subset List.mem_cons_self
  have hfirst : (p'.entry s.ranking s.bestBound).precedes (p.entry s.ranking s.bestBound) = false := by
    rcases List.mem_cons.1 (h.order.perm.symm.subset hnext.1) with rfl | hrest
    · exact HeapEntry.precedes_irrefl _
    · exact (List.pairwise_cons.1 h.order.sorted).1 p' hrest
  have hentry := (h.sound.ranks.unique h.distinct).eq_of_not_precedes
    (h.sound.ranks.mem_entries_iff.2 ⟨p', hnext.1, rfl⟩)
    (h.sound.ranks.mem_entries_iff.2 ⟨p, hp, rfl⟩) hfirst (hnext.2 p hp)
  exact CellStore.pending_inj hnext.1 hp (congrArg HeapEntry.handle hentry)

/-- Without the first cell the others are in order, whatever is counted. -/
theorem erase (h : LinedUp (p :: l) s) (statistics : Statistics) :
    LinedUp l { s with
      cells := s.cells.erase p.handle
      queue := s.queue.erase p.handle
      statistics := statistics } := by
  obtain ⟨_, hpending, _⟩ := CellStore.erase_spec h.sound.store p.handle
  have hp : p ∈ s.cells.pending := h.order.perm.subset List.mem_cons_self
  have hrest : l.Perm (s.cells.erase p.handle).pending := by
    rw [hpending]
    exact (h.order.perm.trans (CellStore.pending_perm_cons hp).symm).cons_inv
  refine ⟨⟨hrest, (List.pairwise_cons.1 h.order.sorted).2⟩,
    ⟨(h.sound.erase p.handle).store, (h.sound.erase p.handle).ranks⟩, ?_⟩
  rw [hpending]
  exact h.distinct.sublist (List.filter_sublist.map Pending.seq)

/-- The cells come out in the one order that there is. -/
theorem popsInOrder (h : LinedUp l s) : PopsInOrder apply cells s l := by
  refine popsInOrder_of_step (R := LinedUp) (fun h => h.order.perm) ?_ ?_ h
  · intro s h
    rw [Single.apply, (next_of_nil h.sound (List.perm_nil.1 h.order.perm.symm)).1]
    rfl
  · intro p l s h
    have hne := List.ne_nil_of_mem (h.order.perm.subset List.mem_cons_self)
    obtain ⟨p', hnext, _, _, hpop⟩ := pop_spec h.sound hne
    obtain rfl := h.eq_of_isNext hnext
    rw [Single.apply, hpop, Step.map_done]
    exact ⟨_, _, rfl, h.erase _⟩

/-- Popped until it is empty, the frontier hands out the cells in order. -/
theorem popped (h : LinedUp l s) {pops : Nat} (hpops : l.length ≤ pops) :
    poppedFrom apply s pops = l.map (·.cell) := by
  rw [h.popsInOrder.popped, List.take_of_length_le hpops]

end LinedUp

theorem Sound.exists_linedUp (h : s.Sound) (distinct : (s.cells.pending.map (·.seq)).Nodup) :
    ∃ l, LinedUp l s := by
  obtain ⟨l, order⟩ := exists_inPopOrder s
  exact ⟨l, order, h, distinct⟩

end Single

end BranchBound
