/-
The pending cells in the order of their pushes. The store lists them by handle, and handles are used
again, so that this order is seen from the sequence numbers alone. A list of the pending cells is in
push order if the sequence numbers grow along it. A new cell comes to its end (`InPushOrder.push`),
cells taken out leave the order of the others (`InPushOrder.filter`), and a cell that no other has
to come out before costs less than all pushed before it and no more than those pushed after it
(`InPushOrder.split_next`).
-/
import BranchBound.Proofs.Heap.Ranks

namespace BranchBound

variable {f : Format}

/-- The list has the pending cells of a store in the order of their pushes. -/
structure InPushOrder (l : List (Pending f)) (cells : CellStore f) : Prop where
  perm : l.Perm cells.pending
  sorted : l.Pairwise fun p p' => p.seq < p'.seq
  fresh : ∀ p ∈ l, p.seq < cells.nextSeq

namespace InPushOrder

variable {l : List (Pending f)} {cells cells' : CellStore f}

theorem of_pending_nil (h : cells.pending = []) : InPushOrder [] cells where
  perm := h ▸ .nil
  sorted := .nil
  fresh := nofun

theorem eq_nil_iff (h : InPushOrder l cells) : l = [] ↔ cells.pending = [] := by
  rw [← List.length_eq_zero_iff, h.perm.length_eq, List.length_eq_zero_iff]

/-- The last pushed cell comes last. -/
theorem push (h : InPushOrder l cells) {handle : CellHandle} {cell : Cell f}
    (hperm : cells'.pending.Perm (⟨handle, cell, cells.nextSeq⟩ :: cells.pending))
    (hseq : cells'.nextSeq = cells.nextSeq + 1) :
    InPushOrder (l ++ [⟨handle, cell, cells.nextSeq⟩]) cells' where
  perm := (List.perm_append_singleton _ l).trans ((h.perm.cons _).trans hperm.symm)
  sorted := by
    rw [List.pairwise_append]
    refine ⟨h.sorted, List.pairwise_singleton .., fun p hp p' hp' => ?_⟩
    rw [List.mem_singleton.1 hp']
    exact h.fresh p hp
  fresh p hp := by
    rw [hseq]
    rcases List.mem_append.1 hp with hp | hp
    · exact Nat.lt_succ_of_lt (h.fresh p hp)
    · rw [List.mem_singleton.1 hp]
      exact Nat.lt_succ_self _

/-- The cells that stay keep their order. -/
theorem filter (h : InPushOrder l cells) {keep : Pending f → Bool}
    (hpending : cells'.pending = cells.pending.filter keep)
    (hseq : cells'.nextSeq = cells.nextSeq) : InPushOrder (l.filter keep) cells' where
  perm := by
    rw [hpending]
    exact h.perm.filter keep
  sorted := h.sorted.filter keep
  fresh p hp := by
    rw [hseq]
    exact h.fresh p (List.mem_filter.1 hp).1

/-- A pending cell parts the others into those pushed before it and those pushed after it. -/
theorem split (h : InPushOrder l cells) {p : Pending f} (hp : p ∈ cells.pending) :
    ∃ before after, l = before ++ p :: after ∧
      (l.filter fun p' => p'.handle ≠ p.handle) = before ++ after ∧
      (∀ b ∈ before, b.seq < p.seq) ∧ ∀ b ∈ after, p.seq < b.seq := by
  obtain ⟨before, after, rfl⟩ := List.append_of_mem (h.perm.mem_iff.2 hp)
  have hsorted := List.pairwise_append.1 h.sorted
  have hafter := (List.pairwise_cons.1 hsorted.2.1).1
  have hbefore : ∀ b ∈ before, b.seq < p.seq := fun b hb =>
    hsorted.2.2 b hb p List.mem_cons_self
  have hne : ∀ b ∈ before ++ p :: after, b.seq ≠ p.seq →
      decide (b.handle ≠ p.handle) = true := fun b hb hseq =>
    decide_eq_true fun heq =>
      hseq (congrArg Pending.seq (CellStore.pending_inj (h.perm.mem_iff.1 hb) hp heq))
  refine ⟨before, after, rfl, ?_, hbefore, hafter⟩
  rw [List.filter_append, List.filter_cons_of_neg (by simp), List.filter_eq_self.2,
    List.filter_eq_self.2]
  · intro b hb
    have hlt := hafter b hb
    exact hne b (by simp [hb]) (by omega)
  · intro b hb
    have hlt := hbefore b hb
    exact hne b (by simp [hb]) (by omega)

/-- The cell that comes out first costs less than each cell pushed before it, and no cell pushed
after it costs less. -/
theorem split_next (h : InPushOrder l cells) {ranking : Ranking} {bound : Binary f} {p : Pending f}
    (hp : p ∈ cells.pending)
    (hnext : ∀ p' ∈ cells.pending,
      (p'.entry ranking bound).precedes (p.entry ranking bound) = false) :
    ∃ before after, l = before ++ p :: after ∧
      (l.filter fun p' => p'.handle ≠ p.handle) = before ++ after ∧
      (∀ b ∈ before, b.seq < p.seq ∧ ranking.cost p.cell bound < ranking.cost b.cell bound) ∧
      ∀ b ∈ after, p.seq < b.seq ∧ ¬ ranking.cost b.cell bound < ranking.cost p.cell bound := by
  obtain ⟨before, after, rfl, hfilter, hbefore, hafter⟩ := h.split hp
  have hfirst : ∀ b ∈ before ++ p :: after,
      ¬ ranking.cost b.cell bound < ranking.cost p.cell bound ∧
        (b.seq < p.seq → ranking.cost p.cell bound < ranking.cost b.cell bound) := by
    intro b hb
    have hn := hnext b (h.perm.mem_iff.1 hb)
    rw [← Bool.not_eq_true, Pending.precedes_iff, not_or, not_and, Decidable.not_imp_not] at hn
    exact hn
  refine ⟨before, after, rfl, hfilter, fun b hb => ?_, fun b hb => ?_⟩
  · exact ⟨hbefore b hb, (hfirst b (by simp [hb])).2 (hbefore b hb)⟩
  · exact ⟨hafter b hb, (hfirst b (by simp [hb])).1⟩

end InPushOrder

end BranchBound
