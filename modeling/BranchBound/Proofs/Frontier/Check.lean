/-
The checks of queues and frontiers in any state, also one that no operation leads to. The check of a
queue finds nothing exactly if the queue is valid (`Heap.violation?_eq_none_iff_valid`). A check of a
frontier compares sizes and looks for queued handles without a cell, but never for cells that are not
queued; that there are none follows by counting, since the handles of a valid queue are different
(`Heap.Valid.size_eq_iff_holds`). Main statement (`checks_exact`): if the store counts its cells right,
the check of a frontier finds nothing exactly if every view is valid and holds the pending cells; and
after a check that finds nothing a pop hands out the cell at the top, or nothing is pending.
-/
import BranchBound.Proofs.Frontier.Paired
import BranchBound.Proofs.Frontier.Single
import Mathlib.Data.List.Nodup
import Mathlib.Data.List.Perm.Subperm

namespace BranchBound

variable {f : Format}

/-! ## Queues -/

namespace Heap

variable {q : Heap f} {cells : CellStore f}

/-- The table says a slot at the place of a handle exactly if an entry with that handle stands in the
slot, no handle is queued twice, and no entry has to come out before the one above it. -/
structure Valid (q : Heap f) : Prop where
  table : ∀ place slot, q.positions[place]? = some (some slot) ↔
    ∃ e : HeapEntry f, q.entries[slot]? = some e ∧ e.handle.val = place
  nodup : q.handles.Nodup
  order : ∀ slot (e above : HeapEntry f), 0 < slot → q.entries[slot]? = some e →
    q.entries[parent slot]? = some above → e.precedes above = false

/-- The queued handles are those of the pending cells. -/
def Holds (q : Heap f) (cells : CellStore f) : Prop :=
  ∀ h, h ∈ q.handles ↔ cells.contains h = true

theorem indexed_iff : q.Indexed ↔ ∀ place slot, q.positions[place]? = some (some slot) ↔
    ∃ e : HeapEntry f, q.entries[slot]? = some e ∧ e.handle.val = place := by
  have hplace : ∀ place slot, q.position? ⟨place⟩ = some slot ↔
      q.positions[place]? = some (some slot) := fun _ _ => Option.join_eq_some_iff
  have hhandle : ∀ (e : HeapEntry f) place, e.handle = ⟨place⟩ ↔ e.handle.val = place :=
    fun _ _ => Index.val_inj.symm
  constructor
  · intro t place slot
    rw [← hplace, t.position?_eq_some_iff]
    simp only [hhandle]
  · rintro table ⟨place⟩ slot
    rw [hplace, table]
    simp only [hhandle]

theorem ordered_iff : q.Ordered ↔ ∀ slot (e above : HeapEntry f), 0 < slot → q.entries[slot]? = some e →
    q.entries[parent slot]? = some above → e.precedes above = false := by
  constructor
  · intro o slot e above hslot he habove
    have hnot := o slot hslot
    unfold precedesAt at hnot
    simpa only [he, habove] using hnot
  · intro order slot hslot
    rw [← Bool.not_eq_true, precedesAt_iff]
    rintro ⟨e, above, he, habove, hprecedes⟩
    rw [order slot e above hslot he habove] at hprecedes
    cases hprecedes

/-- The check of a queue finds nothing exactly if the queue is valid. -/
theorem violation?_eq_none_iff_valid : q.violation? = none ↔ q.Valid := by
  rw [violation?_eq_none_iff]
  constructor
  · rintro ⟨indexed, ordered⟩
    exact ⟨indexed_iff.1 indexed, indexed.handles_nodup, ordered_iff.1 ordered⟩
  · intro v
    exact ⟨indexed_iff.2 v.table, ordered_iff.2 v.order⟩

theorem Valid.indexed (v : q.Valid) : q.Indexed := indexed_iff.2 v.table

/-- A search for queued handles that are unknown finds none exactly if all are known. -/
theorem find?_unknown_eq_none_iff {known : CellHandle → Bool} :
    (q.handles.find? fun h => !known h) = none ↔ ∀ h ∈ q.handles, known h = true := by
  simp [List.find?_eq_none]

/-- Queued handles that have cells are those of all cells exactly if they are as many. -/
theorem Valid.size_eq_iff_holds (v : q.Valid)
    (hcells : ∀ h ∈ q.handles, cells.contains h = true) :
    q.size = cells.pending.length ↔ q.Holds cells := by
  have hlength : q.handles.length = q.size := by
    rw [handles, List.length_map, Array.length_toList, size]
  have hmem : ∀ h, h ∈ cells.pending.map (·.handle) ↔ cells.contains h = true := by
    intro h
    rw [List.mem_map, CellStore.contains_iff]
  have hsub : q.handles ⊆ cells.pending.map (·.handle) := fun h hh => (hmem h).2 (hcells h hh)
  rw [← hlength, ← List.length_map (f := fun p : Pending f => p.handle)]
  constructor
  · intro heq h
    rw [← hmem]
    exact ((v.nodup.subperm hsub).perm_of_length_le heq.ge).mem_iff
  · intro holds
    refine List.Perm.length_eq ((List.perm_ext_iff_of_nodup v.nodup cells.handles_nodup).2 ?_)
    intro h
    rw [holds h, hmem]

end Heap

/-! ## Stores -/

/-- If the queued handles have cells, so has the one at the front. -/
theorem Heap.stored_of_peek? {q : Heap f} {cells : CellStore f} {e : HeapEntry f}
    (hcells : ∀ h ∈ q.handles, cells.contains h = true) (he : q.peek? = some e) :
    e.handle ∈ q.handles ∧ 0 < q.size ∧ ∃ stored, cells.stored? e.handle = some stored := by
  have hqueued : e.handle ∈ q.handles :=
    List.mem_map.2 ⟨e, Array.mem_toList_iff.2 (Array.mem_of_getElem? he), rfl⟩
  obtain ⟨hpos, -⟩ := Array.getElem?_eq_some_iff.1 he
  exact ⟨hqueued, hpos, Option.isSome_iff_exists.1 (hcells e.handle hqueued)⟩

/-- The pending cells are as many as there are slots with a cell. -/
theorem CellStore.length_pending (cells : CellStore f) :
    cells.pending.length = cells.slots.countP Option.isSome := by
  unfold pending
  rw [List.length_filterMap_eq_countP, ← Array.countP_toList]
  conv_rhs => rw [← List.zipIdx_map_fst 0 cells.slots.toList, List.countP_map]
  refine List.countP_congr fun place _ => ?_
  simp

/-! ## Frontiers with two views -/

namespace Paired

variable {s : Paired f}

/-- What the check asks of one view. -/
theorem violationIn?_eq_none_iff {view : View} :
    s.violationIn? view = none ↔
      (s.views.get view).violation? = none ∧ (s.views.get view).size = s.cells.size ∧
        (∀ h ∈ (s.views.get view).handles, s.cells.contains h = true) ∧
        ∀ h ∈ (s.views.get view).handles, (s.views.get view.other).contains h = true := by
  rw [← Heap.find?_unknown_eq_none_iff, ← Heap.find?_unknown_eq_none_iff]
  simp only [violationIn?]
  cases (s.views.get view).violation? with
  | some violation => simp
  | none =>
    by_cases hsize : (s.views.get view).size = s.cells.size
    · cases (s.views.get view).handles.find? fun h => !s.cells.contains h with
      | some h => simp [hsize]
      | none => simp [hsize]
    · simp [hsize]

theorem check_eq_ok_iff_none : s.check = .ok () ↔ ∀ view, s.violationIn? view = none := by
  unfold check
  constructor
  · intro hcheck
    split at hcheck
    · cases hcheck
    · rename_i hnone
      obtain ⟨hfirst, hsecond⟩ := Option.or_eq_none_iff.1 hnone
      rintro (_ | _)
      · exact hfirst
      · exact hsecond
  · intro hnone
    rw [hnone .first, hnone .second]
    rfl

/-- With the cells counted right the check finds nothing exactly if both views are valid and hold the
pending cells. -/
theorem check_eq_ok_iff (counted : s.cells.size = s.cells.slots.countP Option.isSome) :
    s.check = .ok () ↔ ∀ view, (s.views.get view).Valid ∧ (s.views.get view).Holds s.cells := by
  rw [← CellStore.length_pending] at counted
  simp only [check_eq_ok_iff_none, violationIn?_eq_none_iff, Heap.violation?_eq_none_iff_valid,
    counted]
  constructor
  · intro hcheck view
    obtain ⟨valid, hsize, hcells, -⟩ := hcheck view
    exact ⟨valid, (valid.size_eq_iff_holds hcells).1 hsize⟩
  · intro hviews view
    obtain ⟨valid, holds⟩ := hviews view
    obtain ⟨valid', holds'⟩ := hviews view.other
    have hcells : ∀ h ∈ (s.views.get view).handles, s.cells.contains h = true :=
      fun h hh => (holds h).1 hh
    refine ⟨valid, (valid.size_eq_iff_holds hcells).2 holds, hcells, fun h hh => ?_⟩
    rw [← valid'.indexed.mem_handles_iff, holds']
    exact hcells h hh

/-- After a check that finds nothing a pop hands out the cell at the top, or nothing is pending. -/
theorem pop_of_check (checked : s.check = .ok ()) :
    (s.top = .error .empty ∧ s.pop = .failed s .empty) ∨
      ∃ cell, s.top = .ok cell ∧ s.pop.answer = .ok cell ∧ s.pop.state.size + 1 = s.size := by
  obtain ⟨-, hsize, hcells, htwins⟩ := violationIn?_eq_none_iff.1
    (check_eq_ok_iff_none.1 checked s.currentView)
  cases he : (s.views.get s.currentView).peek? with
  | none =>
    left
    unfold top pop
    simp only [he, and_self]
  | some e =>
    right
    obtain ⟨hqueued, hpos, stored, hstored⟩ := Heap.stored_of_peek? hcells he
    have htwin := htwins e.handle hqueued
    have hpop : s.pop.answer = .ok stored.cell ∧ s.pop.state.size = s.size - 1 := by
      simp [pop, he, htwin, CellStore.remove, hstored, Step.done, size]
    refine ⟨stored.cell, by simp [top, he, CellStore.get?, hstored], hpop.1, ?_⟩
    rw [hpop.2, Nat.sub_add_cancel]
    exact hpos.trans_eq hsize

end Paired

/-! ## Frontiers with one view -/

namespace Single

variable {s : Single f}

theorem check_eq_ok_iff_none : s.check = .ok () ↔ s.violation? = none := by
  unfold check
  cases s.violation? with
  | some violation => simp
  | none => simp

theorem violation?_eq_none_iff :
    s.violation? = none ↔ s.queue.violation? = none ∧
      (∀ h ∈ s.queue.handles, s.cells.contains h = true) ∧ s.queue.size = s.cells.size := by
  rw [← Heap.find?_unknown_eq_none_iff]
  simp only [violation?]
  cases s.queue.violation? with
  | some violation => simp
  | none =>
    cases s.queue.handles.find? fun h => !s.cells.contains h with
    | some h => simp
    | none => simp

theorem check_eq_ok_iff (counted : s.cells.size = s.cells.slots.countP Option.isSome) :
    s.check = .ok () ↔ s.queue.Valid ∧ s.queue.Holds s.cells := by
  rw [← CellStore.length_pending] at counted
  rw [check_eq_ok_iff_none, violation?_eq_none_iff, Heap.violation?_eq_none_iff_valid, counted]
  constructor
  · rintro ⟨valid, hcells, hsize⟩
    exact ⟨valid, (valid.size_eq_iff_holds hcells).1 hsize⟩
  · rintro ⟨valid, holds⟩
    have hcells : ∀ h ∈ s.queue.handles, s.cells.contains h = true := fun h hh => (holds h).1 hh
    exact ⟨valid, hcells, (valid.size_eq_iff_holds hcells).2 holds⟩

theorem pop_of_check (checked : s.check = .ok ()) :
    (s.top = .error .empty ∧ s.pop = .failed s .empty) ∨
      ∃ cell, s.top = .ok cell ∧ s.pop.answer = .ok cell ∧ s.pop.state.size + 1 = s.size := by
  obtain ⟨-, hcells, hsize⟩ := violation?_eq_none_iff.1 (check_eq_ok_iff_none.1 checked)
  cases he : s.queue.peek? with
  | none =>
    left
    unfold top pop
    simp only [he, and_self]
  | some e =>
    right
    obtain ⟨-, hpos, stored, hstored⟩ := Heap.stored_of_peek? hcells he
    have hpop : s.pop.answer = .ok stored.cell ∧ s.pop.state.size = s.size - 1 := by
      simp [pop, he, CellStore.remove, hstored, Step.done, size]
    refine ⟨stored.cell, by simp [top, he, CellStore.get?, hstored], hpop.1, ?_⟩
    rw [hpop.2, Nat.sub_add_cancel]
    exact hpos.trans_eq hsize

end Single

/-! ## All checks -/

/-- In any state at all, the check of a queue finds nothing exactly if the queue is valid. If the
store counts its cells right, the check of a frontier finds nothing exactly if its views are valid and
hold the pending cells. And after a check that finds nothing, a pop hands out the cell at the top, so
that one less is pending, or both find that none is. -/
theorem checks_exact :
    (∀ q : Heap f, q.violation? = none ↔ q.Valid) ∧
    (∀ s : Paired f, s.cells.size = s.cells.slots.countP Option.isSome →
      (s.check = .ok () ↔
        ∀ view, (s.views.get view).Valid ∧ (s.views.get view).Holds s.cells)) ∧
    (∀ s : Single f, s.cells.size = s.cells.slots.countP Option.isSome →
      (s.check = .ok () ↔ s.queue.Valid ∧ s.queue.Holds s.cells)) ∧
    (∀ s : Paired f, s.check = .ok () →
      (s.top = .error .empty ∧ s.pop = .failed s .empty) ∨
        ∃ cell, s.top = .ok cell ∧ s.pop.answer = .ok cell ∧ s.pop.state.size + 1 = s.size) ∧
    ∀ s : Single f, s.check = .ok () →
      (s.top = .error .empty ∧ s.pop = .failed s .empty) ∨
        ∃ cell, s.top = .ok cell ∧ s.pop.answer = .ok cell ∧ s.pop.state.size + 1 = s.size :=
  ⟨fun _ => Heap.violation?_eq_none_iff_valid, fun _ => Paired.check_eq_ok_iff,
    fun _ => Single.check_eq_ok_iff, fun _ => Paired.pop_of_check, fun _ => Single.pop_of_check⟩

/-- Two cells, the heavier one under a handle used before, are in both views, and the second view hands
that one out. If this view loses its cells, the check finds something, and the views do not both hold
the pending cells. -/
theorem checks_exact_twin :
    let cell (dimension : Nat) : Cell .binary64 := .ofRegion (.entire dimension)
    let heavy : Cell .binary64 := { cell 3 with weight := .one }
    let operations : List (Operation .binary64) :=
      [.push (cell 1), .push (cell 2), .pop, .push heavy]
    let s := stateAfter Paired.apply (.ofRankings .estimateLower .weight) operations
    let broken : Paired .binary64 := { s with views := ⟨s.views.first, .empty⟩ }
    let single := stateAfter Single.apply (.ofRanking .weight .infinity) operations
    (s.cells.size = s.cells.slots.countP Option.isSome ∧ s.check = .ok () ∧
      (∀ view, (s.views.get view).Valid ∧ (s.views.get view).Holds s.cells) ∧
      s.pop.answer = .ok heavy) ∧
    (broken.check ≠ .ok () ∧
      ¬ ∀ view, (broken.views.get view).Valid ∧ (broken.views.get view).Holds broken.cells) ∧
    single.check = .ok () ∧ single.queue.Valid ∧ single.pop.state.size + 1 = single.size := by
  intro cell heavy operations s broken single
  obtain ⟨-, paired, ofSingle, popPaired, popSingle⟩ := checks_exact (f := .binary64)
  have counted : s.cells.size = s.cells.slots.countP Option.isSome := by decide +kernel
  have checked : s.check = .ok () := by decide +kernel
  have found : broken.check ≠ .ok () := by decide +kernel
  have counted' : single.cells.size = single.cells.slots.countP Option.isSome := by decide +kernel
  have checked' : single.check = .ok () := by decide +kernel
  refine ⟨⟨counted, checked, (paired s counted).1 checked, ?_⟩,
    ⟨found, mt (paired broken counted).2 found⟩, checked', ((ofSingle single counted').1 checked').1, ?_⟩
  · have htop : s.top = .ok heavy := by decide +kernel
    rcases popPaired s checked with ⟨hempty, -⟩ | ⟨other, hother, hpop, -⟩
    · cases htop.symm.trans hempty
    · cases htop.symm.trans hother
      exact hpop
  · have htop : single.top ≠ .error .empty := by decide +kernel
    rcases popSingle single checked' with ⟨hempty, -⟩ | ⟨_, -, -, hless⟩
    · exact absurd hempty htop
    · exact hless

end BranchBound
