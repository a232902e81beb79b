/-
A frontier with two views stays consistent. After every run of a frontier made from settings that
were accepted, each view holds exactly the pending cells, each once and where the table of the view
says, in order and at the cost that the best known bound of the moment gives it
(`consistent_after_run`). So no call ever finds a view corrupt: what can fail is a pop or a look at
the top of an empty frontier, and a new bound that is no number, which changes nothing.
-/
import BranchBound.Proofs.Frontier.Paired

namespace BranchBound

namespace Paired

variable {f : Format} {s : Paired f}

/-- A view holds the pending cells and nothing else, and all it says about them is true. -/
structure Exact (s : Paired f) (view : View) : Prop where
  /-- No handle is queued twice. -/
  nodup : (s.views.get view).handles.Nodup
  /-- The queued handles are those of the pending cells. -/
  handles : ∀ h, h ∈ (s.views.get view).handles ↔ s.cells.contains h = true
  /-- The table tells for every queued handle its slot, and nothing else. -/
  table : ∀ h slot, (s.views.get view).position? h = some slot ↔
    ∃ e, (s.views.get view).entries[slot]? = some e ∧ e.handle = h
  /-- No entry has to come out before the one above it. -/
  order : ∀ slot, 0 < slot → (s.views.get view).precedesAt slot (Heap.parent slot) = false
  /-- An entry has the sequence number of its cell and its cost at the best known bound. -/
  entry : ∀ e ∈ (s.views.get view).entries, s.cells.seq? e.handle = some e.seq ∧
    e.cost.isNaN = false ∧ ∃ cell, s.get? e.handle = some cell ∧ e.cost = s.costOf view cell
  /-- The cost recorded for a handle is that of its cell, and there is none without a cell. -/
  recorded : ∀ h, s.recordedCost? view h = (s.get? h).map (s.costOf view)

theorem Sound.recordedCost?_eq (h : s.Sound) (view : View) (handle : CellHandle) :
    s.recordedCost? view handle = (s.get? handle).map (s.costOf view) := by
  unfold recordedCost? get?
  cases hcontains : s.cells.contains handle
  · rw [CellStore.get?_eq_none_iff.2 hcontains, Option.map_none]
    exact (h.ranks view).cost?_eq_none (CellStore.contains_eq_false_iff.1 hcontains)
  · obtain ⟨p, hp, rfl⟩ := CellStore.contains_iff.1 hcontains
    rw [CellStore.get?_of_mem hp, (h.ranks view).cost?_eq hp]
    rfl

theorem Sound.exact (h : s.Sound) (view : View) : s.Exact view where
  nodup := (h.ranks view).sound.indexed.handles_nodup
  handles handle := by
    rw [(h.ranks view).sound.indexed.mem_handles_iff, (h.ranks view).contains_iff,
      CellStore.contains_iff]
  table _ _ := (h.ranks view).sound.indexed.position?_eq_some_iff
  order := (h.ranks view).sound.ordered
  entry e he := by
    obtain ⟨p, hp, rfl⟩ := (h.ranks view).mem_entries_iff.1 (Array.mem_toList_iff.2 he)
    refine ⟨?_, Ranking.isNaN_cost .., p.cell, CellStore.get?_of_mem hp, rfl⟩
    unfold CellStore.seq?
    rw [show s.cells.stored? (p.entry _ _).handle = _ from CellStore.mem_pending_iff.1 hp]
    rfl
  recorded := h.recordedCost?_eq view

theorem eq_of_made {settings : Settings f} {start : Paired f}
    (made : ofSettings? settings = .ok start) : start = ofSettings settings := by
  unfold ofSettings? at made
  split at made
  · cases made
  · cases made
    rfl

theorem sound_of_made {settings : Settings f} {start : Paired f}
    (made : ofSettings? settings = .ok start) : start.Sound :=
  eq_of_made made ▸ sound_ofSettings settings

theorem sound_after_run {settings : Settings f} {start : Paired f}
    (made : ofSettings? settings = .ok start) (operations : List (Operation f)) :
    (stateAfter apply start operations).Sound :=
  stateAfter_keeps (fun _ operation h => h.apply operation) (sound_of_made made) operations

/-- After every run both views are exact, the check finds nothing, the only calls that would not
answer are a pop or a look at the top of an empty frontier and those with a bound that is no
number, and the latter would change nothing. -/
theorem consistent_after_run {settings : Settings f} {start : Paired f}
    (made : ofSettings? settings = .ok start) (operations : List (Operation f)) :
    let s := stateAfter apply start operations
    (∀ view, s.Exact view) ∧ s.check = .ok () ∧
      (∀ operation failure, (s.apply operation).answer = .error failure →
        (failure = .error .empty ∧ (operation = .pop ∨ operation = .top) ∧ s.isEmpty = true) ∨
        (failure = .fault .pairedBoundIsNaN ∧ ∃ bound, bound.isNaN = true ∧
          (operation = .setBestBound bound ∨ operation = .updateBestBound bound))) ∧
      (∀ bound, bound.isNaN = true →
        s.apply (.setBestBound bound) = .faulted s .pairedBoundIsNaN [] ∧
        s.apply (.updateBestBound bound) = .faulted s .pairedBoundIsNaN []) := by
  intro s
  have h : s.Sound := sound_after_run made operations
  refine ⟨h.exact, h.check, ?_, ?_⟩
  · intro operation failure hfailure
    rcases h.apply_error hfailure with ⟨herror, hwhich, hnil⟩ | hfault
    · exact .inl ⟨herror, hwhich, (CellStore.isEmpty_iff h.store).2 hnil⟩
    · exact .inr hfault
  · intro bound hb
    obtain ⟨hset, hupdate⟩ := s.bound_of_isNaN hb
    rw [Paired.apply, Paired.apply, hset, hupdate]
    exact ⟨rfl, rfl⟩

/-- A third cell gets the handle of one that has come out, and the bound is updated after. -/
theorem consistent_after_reuse :
    let start : Paired .binary64 := ofSettings .ordinary
    let s := stateAfter apply start [.push (.ofRegion (.entire 1)), .push (.ofRegion (.entire 2)),
      .pop, .push (.ofRegion (.entire 3)), .updateBestBound .zero]
    ofSettings? .ordinary = .ok start ∧ s.size = 2 ∧ (∀ view, s.Exact view) ∧ s.check = .ok () := by
  intro start s
  have made : ofSettings? .ordinary = .ok start := rfl
  obtain ⟨exact, check, _⟩ := consistent_after_run made
    [.push (.ofRegion (.entire 1)), .push (.ofRegion (.entire 2)), .pop,
      .push (.ofRegion (.entire 3)), .updateBestBound .zero]
  exact ⟨made, by decide +kernel, exact, check⟩

end Paired

end BranchBound
