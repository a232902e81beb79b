/-
What the operations do to a frontier with two views. It is sound if its store is and each view ranks
exactly the pending cells at the best known bound. On a sound frontier no operation fails but a pop
or a look at the top where nothing is pending and a new bound that is no number
(`Sound.apply_error`), every operation leaves it sound (`Sound.apply`), and its check finds nothing
(`Sound.check`). What an operation does is told by one equation for the whole step (`push_spec` to
`updateBestBound_spec`): a push adds one cell, a pop takes out a cell that no other has to come out
before in the current view, a contraction takes out the dominated cells, and a new bound leaves the
cells as they are.
-/
import BranchBound.Frontier.Paired
import BranchBound.Proofs.Heap.Check
import BranchBound.Proofs.Heap.Ranks
import Mathlib.Logic.Function.Iterate

namespace BranchBound

namespace Paired

variable {f : Format} {s : Paired f}

/-- The store is sound and each view ranks its pending cells at the best known bound. -/
structure Sound (s : Paired f) : Prop where
  store : s.cells.Sound
  ranks : ∀ v, (s.views.get v).Ranks (s.rankings.get v) s.bestBound s.cells.pending

theorem sound_of_empty (store : s.cells.Sound) (hcells : s.cells.pending = [])
    (hviews : s.views = ⟨.empty, .empty⟩) : s.Sound where
  store := store
  ranks v := by
    rw [hcells, hviews]
    cases v
    · exact Heap.ranks_empty ..
    · exact Heap.ranks_empty ..

theorem sound_ofSettings (settings : Settings f) : (ofSettings settings).Sound :=
  sound_of_empty CellStore.sound_empty rfl rfl

/-! ## Ranking anew -/

/-- The queue of a view ranked anew. -/
def anew (s : Paired f) (view : View) : Heap f :=
  .anew (s.rankings.get view) s.bestBound s.cells.pending

theorem ranks_anew (s : Paired f) (view : View) :
    (s.anew view).Ranks (s.rankings.get view) s.bestBound s.cells.pending :=
  (Heap.anew_spec _ _ s.cells.handles_nodup).2

/-- The pending cells can always be ranked anew. -/
theorem rebuilt_eq (s : Paired f) (view : View) :
    s.rebuilt view = .ok { s with views := s.views.modify view fun _ => s.anew view } := by
  have hok := (Heap.anew_spec (s.rankings.get view) s.bestBound s.cells.handles_nodup).1
  unfold rebuilt
  rw [show (s.cells.pending.map fun p => (⟨s.costOf view p.cell, p.seq, p.handle⟩ : HeapEntry f)) =
    s.cells.pending.map (·.entry (s.rankings.get view) s.bestBound) from rfl, hok]
  rfl

theorem reorderView_eq (s : Paired f) (view : View) :
    s.reorderView view = .done
      { s with
        views := s.views.modify view fun _ => s.anew view
        statistics := s.statistics.countReorder } () [⟨.reorder view, s.statistics.countReorder⟩] := by
  unfold reorderView
  rw [rebuilt_eq]

/-- Both views of the pending cells, ranked anew. -/
def bothAnew (s : Paired f) : PerView (Heap f) := ⟨s.anew .first, s.anew .second⟩

theorem get_bothAnew (s : Paired f) (v : View) : s.bothAnew.get v = s.anew v := by cases v <;> rfl

theorem ranks_bothAnew (s : Paired f) (v : View) :
    (s.bothAnew.get v).Ranks (s.rankings.get v) s.bestBound s.cells.pending := by
  rw [get_bothAnew]
  exact s.ranks_anew v

/-- The views after those that depend on the best known bound were ranked anew. -/
def renewed (s : Paired f) : PerView (Heap f) where
  first := if s.rankings.first.dependsOnBound then s.anew .first else s.views.first
  second := if s.rankings.second.dependsOnBound then s.anew .second else s.views.second

theorem get_renewed (s : Paired f) (v : View) :
    s.renewed.get v = if (s.rankings.get v).dependsOnBound then s.anew v else s.views.get v := by
  cases v <;> rfl

/-- The number of views that depend on the best known bound. -/
def dependents (s : Paired f) : Nat :=
  s.rankings.first.dependsOnBound.toNat + s.rankings.second.dependsOnBound.toNat

/-- The views that depend on the best known bound. -/
def dependentViews (s : Paired f) : List View :=
  [View.first, View.second].filter fun view => (s.rankings.get view).dependsOnBound

theorem length_dependentViews (s : Paired f) : s.dependentViews.length = s.dependents := by
  unfold dependentViews dependents
  cases hfirst : s.rankings.first.dependsOnBound
  all_goals cases hsecond : s.rankings.second.dependsOnBound
  all_goals simp [PerView.get, hfirst, hsecond]

theorem reorder_eq (s : Paired f) :
    s.reorder = .done
      { s with
        views := s.bothAnew
        statistics := s.statistics.countReorder.countReorder } ()
      (Notice.reorders s.statistics [.first, .second]) :=
  Step.andThen_eq_done (reorderView_eq s .first) (reorderView_eq _ .second)

theorem reorderDependent_eq (s : Paired f) :
    s.reorderDependent = .done
      { s with
        views := s.renewed
        statistics := Statistics.countReorder^[s.dependents] s.statistics } ()
      (Notice.reorders s.statistics s.dependentViews) := by
  unfold reorderDependent reorderIfDependent renewed dependents dependentViews
  cases hfirst : s.rankings.first.dependsOnBound
  all_goals cases hsecond : s.rankings.second.dependsOnBound
  all_goals
    simp only [reorderView_eq, PerView.get, hfirst, hsecond, List.filter_cons, List.filter_nil,
      Bool.false_eq_true, if_true, if_false, Step.done_andThen]
    rfl

/-- A view that does not depend on the best known bound need not be ranked anew when it changes. -/
theorem Sound.renewed (h : s.Sound) (bound : Binary f) (v : View) :
    ({ s with bestBound := bound }.renewed.get v).Ranks (s.rankings.get v) bound s.cells.pending := by
  rw [get_renewed]
  split
  · exact ranks_anew { s with bestBound := bound } v
  · rename_i hdep
    exact (h.ranks v).rebound (Bool.eq_false_iff.2 hdep) bound

/-! ## Putting a cell in -/

theorem push_of_insert (h : s.Sound) {cell : Cell f} {cells : CellStore f} {handle : CellHandle}
    (hinsert : s.cells.insert cell = .ok (cells, handle)) :
    ∃ views : PerView (Heap f),
      (∀ v, (s.views.get v).push
        (Pending.entry (s.rankings.get v) s.bestBound ⟨handle, cell, s.cells.nextSeq⟩) =
          .ok (views.get v)) ∧
      s.push cell = .done
        { s with
          cells := cells
          views := views
          statistics := s.statistics.countPush cells.size } handle
        [⟨.push handle cell, s.statistics.countPush cells.size⟩] ∧
      { s with cells := cells, views := views }.Sound := by
  obtain ⟨_, _, hok, store, hfresh, hperm, _⟩ := CellStore.insert_spec h.store cell
  cases hinsert.symm.trans hok
  have fresh := CellStore.contains_eq_false_iff.1 hfresh
  have hqueue (v : View) := (h.ranks v).push (p := ⟨handle, cell, s.cells.nextSeq⟩) fresh
  obtain ⟨first, hfirst, ranks⟩ := hqueue .first
  obtain ⟨second, hsecond, ranks'⟩ := hqueue .second
  have hfirst' : s.views.first.push ⟨s.costOf .first cell, s.cells.nextSeq, handle⟩ = .ok first :=
    hfirst
  have hsecond' :
      s.views.second.push ⟨s.costOf .second cell, s.cells.nextSeq, handle⟩ = .ok second := hsecond
  refine ⟨⟨first, second⟩, fun v => ?_, ?_, ⟨store, fun v => ?_⟩⟩
  · cases v
    · exact hfirst
    · exact hsecond
  · unfold push
    rw [hinsert]
    simp only [hfirst', hsecond']
  · cases v
    · exact ranks.congr hperm.symm
    · exact ranks'.congr hperm.symm

theorem push_spec (h : s.Sound) (cell : Cell f) :
    ∃ cells views handle,
      s.push cell = .done
        { s with
          cells := cells
          views := views
          statistics := s.statistics.countPush cells.size } handle
        [⟨.push handle cell, s.statistics.countPush cells.size⟩] ∧
      { s with cells := cells, views := views }.Sound ∧
      s.cells.contains handle = false ∧
      cells.pending.Perm (⟨handle, cell, s.cells.nextSeq⟩ :: s.cells.pending) ∧
      cells.nextSeq = Counter.raise s.cells.nextSeq 1 := by
  obtain ⟨cells, handle, hinsert, _, hfresh, hperm, hseq⟩ := CellStore.insert_spec h.store cell
  obtain ⟨views, _, hpush, sound⟩ := push_of_insert h hinsert
  exact ⟨cells, views, handle, hpush, sound, hfresh, hperm, hseq⟩

/-! ## Taking the next cell out -/

/-- The pending cell is one that no other has to come out before in a view. -/
def IsNext (s : Paired f) (view : View) (p : Pending f) : Prop :=
  p ∈ s.cells.pending ∧ ∀ p' ∈ s.cells.pending,
    (p'.entry (s.rankings.get view) s.bestBound).precedes
      (p.entry (s.rankings.get view) s.bestBound) = false

theorem next_of_nil (h : s.Sound) (hnil : s.cells.pending = []) :
    s.pop = .failed s .empty ∧ s.top = .error .empty := by
  have hpeek := (h.ranks s.currentView).peek?_eq_none_iff.2 hnil
  unfold pop top
  simp only [hpeek, and_self]

theorem pop_of_peek? (h : s.Sound) {e : HeapEntry f}
    (he : (s.views.get s.currentView).peek? = some e) :
    ∃ p, p.handle = e.handle ∧ s.IsNext s.currentView p ∧ s.top = .ok p.cell ∧
      s.pop = .done
        { s with
          cells := s.cells.erase p.handle
          views := ⟨s.views.first.erase p.handle, s.views.second.erase p.handle⟩
          turn := s.turn.advance
          statistics := s.statistics.countPop s.currentView } p.cell
        [⟨.pop s.currentView p.cell, s.statistics.countPop s.currentView⟩] := by
  obtain ⟨p, hp, rfl, hfirst⟩ := (h.ranks _).front he
  have hstored := CellStore.mem_pending_iff.1 hp
  -- the other view has the cell too, and to pop it is to erase it
  have htwin : (s.views.get s.currentView.other).contains p.handle = true :=
    (h.ranks _).contains_iff.2 ⟨p, hp, rfl⟩
  have hviews : (s.views.modify s.currentView Heap.pop).modify s.currentView.other
      (·.erase p.handle) = ⟨s.views.first.erase p.handle, s.views.second.erase p.handle⟩ := by
    have hpop := Heap.pop_eq_erase (h.ranks _).sound.indexed he
    generalize s.currentView = v at hpop ⊢
    cases v
    · exact congrArg (PerView.mk · _) hpop
    · exact congrArg (PerView.mk _ ·) hpop
  refine ⟨p, rfl, ⟨hp, hfirst⟩, ?_, ?_⟩
  · unfold top
    rw [he]
    simp only [Pending.entry, CellStore.get?_of_mem hp]
  · unfold pop
    simp only [he, Pending.entry, htwin, CellStore.remove_eq hstored, hviews, Bool.not_true,
      Bool.false_eq_true, if_false]

theorem pop_spec (h : s.Sound) (hne : s.cells.pending ≠ []) :
    ∃ p, s.IsNext s.currentView p ∧ s.top = .ok p.cell ∧
      s.pop = .done
        { s with
          cells := s.cells.erase p.handle
          views := ⟨s.views.first.erase p.handle, s.views.second.erase p.handle⟩
          turn := s.turn.advance
          statistics := s.statistics.countPop s.currentView } p.cell
        [⟨.pop s.currentView p.cell, s.statistics.countPop s.currentView⟩] := by
  obtain ⟨e, he⟩ := (h.ranks s.currentView).exists_front hne
  obtain ⟨p, _, hp, htop, hpop⟩ := pop_of_peek? h he
  exact ⟨p, hp, htop, hpop⟩

theorem Sound.erase (h : s.Sound) (handle : CellHandle) :
    { s with
      cells := s.cells.erase handle
      views := ⟨s.views.first.erase handle, s.views.second.erase handle⟩ }.Sound := by
  obtain ⟨store, hpending, _⟩ := CellStore.erase_spec h.store handle
  refine ⟨store, fun v => ?_⟩
  rw [hpending]
  cases v
  · exact (h.ranks .first).erase handle
  · exact (h.ranks .second).erase handle

/-! ## Discarding -/

/-- Whether a ranking says that a cell cannot be better than a threshold. -/
def discards (s : Paired f) (threshold : Binary f) (cell : Cell f) : Bool :=
  s.rankings.first.dominates cell threshold || s.rankings.second.dominates cell threshold

/-- The number of pending cells that cannot be better than a threshold. -/
def discardCount (s : Paired f) (threshold : Binary f) : Nat :=
  s.cells.pending.countP fun p => s.discards threshold p.cell

theorem isSome_dominatingView? (s : Paired f) (threshold : Binary f) (cell : Cell f) :
    (s.dominatingView? threshold cell).isSome = s.discards threshold cell := by
  unfold dominatingView? discards
  cases s.rankings.first.dominates cell threshold
  · cases s.rankings.second.dominates cell threshold <;> rfl
  · rfl

theorem map_fst_dominated (s : Paired f) (threshold : Binary f) :
    (s.dominated threshold).map (·.1) =
      s.cells.pending.filter fun p => s.discards threshold p.cell := by
  unfold dominated
  rw [List.map_filterMap, ← List.filterMap_eq_filter]
  congr 1
  funext p
  show _ = if s.discards threshold p.cell = true then some p else none
  rw [← isSome_dominatingView?]
  cases s.dominatingView? threshold p.cell <;> rfl

theorem length_dominated (s : Paired f) (threshold : Binary f) :
    (s.dominated threshold).length = s.discardCount threshold := by
  unfold discardCount
  rw [List.countP_eq_length_filter, ← map_fst_dominated, List.length_map]

/-- The store without the cells that cannot be better than a threshold. -/
def kept (s : Paired f) (threshold : Binary f) : CellStore f :=
  (s.dominated threshold).foldl (fun cells d => cells.erase d.1.handle) s.cells

theorem kept_spec (store : s.cells.Sound) (threshold : Binary f) :
    (s.kept threshold).Sound ∧
      (s.kept threshold).pending =
        (s.cells.pending.filter fun p => !s.discards threshold p.cell) ∧
      (s.kept threshold).nextSeq = s.cells.nextSeq := by
  refine CellStore.eraseAll_filter store (s.discards threshold) ?_
  rw [← map_fst_dominated, List.map_map]
  rfl

theorem dominated_of_none {threshold : Binary f} (h : s.discardCount threshold = 0) :
    s.dominated threshold = [] := by
  rwa [← length_dominated, List.length_eq_zero_iff] at h

theorem kept_of_none {threshold : Binary f} (h : s.discardCount threshold = 0) :
    s.kept threshold = s.cells := by
  unfold kept
  rw [dominated_of_none h, List.foldl_nil]

/-- A contraction ranks the cells that are left anew in both views, unless all are left. -/
theorem contract_eq (s : Paired f) (threshold : Binary f) :
    s.contract threshold =
      let statistics := s.statistics.countContraction (s.discardCount threshold)
      .done
        { s with
          cells := s.kept threshold
          views := if s.discardCount threshold = 0 then s.views
            else { s with cells := s.kept threshold }.bothAnew
          statistics := statistics } (s.discardCount threshold)
        ((s.dominated threshold).map fun d => ⟨.prune d.1.cell d.2 threshold, statistics⟩) := by
  have hlength := s.length_dominated threshold
  unfold contract
  simp only [hlength]
  by_cases hnil : s.dominated threshold = []
  · -- nothing is taken out and nothing ranked anew
    have hzero : s.discardCount threshold = 0 := by rw [← hlength, hnil, List.length_nil]
    simp only [hnil, hzero, kept_of_none hzero, List.isEmpty_nil, if_true, List.foldl_nil]
  · have hne : s.discardCount threshold ≠ 0 := by
      rwa [← hlength, Ne, List.length_eq_zero_iff]
    rw [if_neg hne, if_neg (by rwa [List.isEmpty_iff])]
    simp only [rebuilt_eq]
    rfl

/-! ## A new bound -/

/-- The frontier with a new best known bound, before the cells are ranked by it. -/
def rebound (s : Paired f) (bound : Binary f) : Paired f :=
  { s with bestBound := bound, statistics := s.statistics.countBoundUpdate }

theorem storeBestBound_eq {bound : Binary f} (hb : bound.isNaN = false) :
    s.storeBestBound bound = .done (s.rebound bound) s.bestBound [] := by
  unfold storeBestBound
  rw [hb]
  rfl

/-- A bound that is no number is refused before anything happens. -/
theorem bound_of_isNaN {bound : Binary f} (hb : bound.isNaN = true) :
    s.setBestBound bound = .faulted s .pairedBoundIsNaN [] ∧
      s.updateBestBound bound = .faulted s .pairedBoundIsNaN [] := by
  unfold setBestBound updateBestBound storeBestBound
  simp only [hb, if_true, Step.faulted_andThen, and_self]

theorem setBestBound_eq {bound : Binary f} (hb : bound.isNaN = false) :
    let statistics := Statistics.countReorder^[s.dependents] (s.rebound bound).statistics
    s.setBestBound bound = .done
      { s.rebound bound with
        views := (s.rebound bound).renewed
        statistics := statistics } ()
      (Notice.reorders (s.rebound bound).statistics s.dependentViews ++
        [⟨.bound s.bestBound bound, statistics⟩]) :=
  Step.silent_andThen (storeBestBound_eq hb)
    (Step.andThen_eq_done (s.rebound bound).reorderDependent_eq rfl)

theorem setBestBound_spec {bound : Binary f} (hb : bound.isNaN = false) :
    ∃ notices, s.setBestBound bound = .done
      { s.rebound bound with
        views := (s.rebound bound).renewed
        statistics := Statistics.countReorder^[s.dependents] (s.rebound bound).statistics }
      () notices :=
  ⟨_, setBestBound_eq hb⟩

/-- With an update the cells are ranked by the new bound once: if any was discarded by the
contraction, else by themselves. -/
theorem updateBestBound_eq {bound : Binary f} (hb : bound.isNaN = false) :
    let count := s.discardCount bound
    let contracted := (s.rebound bound).statistics.countContraction count
    let statistics := Statistics.countReorder^[if count = 0 then s.dependents else 0] contracted
    s.updateBestBound bound = .done
      { s.rebound bound with
        cells := s.kept bound
        views := if count = 0 then (s.rebound bound).renewed
          else { s.rebound bound with cells := s.kept bound }.bothAnew
        statistics := statistics } count
      ((s.dominated bound).map (fun d => ⟨.prune d.1.cell d.2 bound, contracted⟩) ++
        (Notice.reorders contracted (if count = 0 then s.dependentViews else []) ++
          [⟨.bound s.bestBound bound, statistics⟩])) := by
  have hcontract := (s.rebound bound).contract_eq bound
  rw [show (s.rebound bound).discardCount bound = s.discardCount bound from rfl,
    show (s.rebound bound).kept bound = s.kept bound from rfl,
    show (s.rebound bound).dominated bound = s.dominated bound from rfl] at hcontract
  by_cases hzero : s.discardCount bound = 0
  · simp only [hzero, if_true, kept_of_none hzero] at hcontract ⊢
    -- all cells are left, ranked by the bound before
    exact Step.silent_andThen (storeBestBound_eq hb) (Step.andThen_eq_done hcontract
      (Step.andThen_eq_done
        (reorderDependent_eq
          { s.rebound bound with statistics := (s.rebound bound).statistics.countContraction 0 })
        rfl))
  · simp only [hzero, if_false] at hcontract ⊢
    -- the contraction has ranked by the new bound
    exact Step.silent_andThen (storeBestBound_eq hb)
      (Step.andThen_eq_done hcontract (Step.andThen_eq_done (if_neg hzero) rfl))

theorem updateBestBound_spec {bound : Binary f} (hb : bound.isNaN = false) :
    ∃ notices, s.updateBestBound bound = .done
      { s.rebound bound with
        cells := s.kept bound
        views := if s.discardCount bound = 0 then (s.rebound bound).renewed
          else { s.rebound bound with cells := s.kept bound }.bothAnew
        statistics := Statistics.countReorder^[if s.discardCount bound = 0 then s.dependents else 0]
          ((s.rebound bound).statistics.countContraction (s.discardCount bound)) }
      (s.discardCount bound) notices :=
  ⟨_, updateBestBound_eq hb⟩

/-- Where nothing is discarded the views may be left as they are, else both are ranked anew. -/
theorem Sound.kept (h : s.Sound) (threshold bound : Binary f) {views : PerView (Heap f)}
    (hviews : ∀ v, (views.get v).Ranks (s.rankings.get v) bound s.cells.pending) :
    { s with
      cells := s.kept threshold
      bestBound := bound
      views := if s.discardCount threshold = 0 then views
        else { s with cells := s.kept threshold, bestBound := bound }.bothAnew }.Sound := by
  refine ⟨(kept_spec h.store threshold).1, ?_⟩
  simp only
  split
  · rename_i hzero
    rw [kept_of_none hzero]
    exact hviews
  · exact ranks_bothAnew { s with cells := s.kept threshold, bestBound := bound }

/-! ## Every operation -/

/-- No operation leaves the frontier unsound. -/
theorem Sound.apply (h : s.Sound) (operation : Operation f) : (s.apply operation).state.Sound := by
  cases operation with
  | push cell =>
    obtain ⟨cells, views, handle, hpush, sound, _⟩ := push_spec h cell
    rw [Paired.apply, Step.state_map, hpush]
    exact ⟨sound.store, sound.ranks⟩
  | pop =>
    rw [Paired.apply, Step.state_map]
    by_cases hnil : s.cells.pending = []
    · rw [(next_of_nil h hnil).1]
      exact h
    · obtain ⟨p, _, _, hpop⟩ := pop_spec h hnil
      rw [hpop]
      exact ⟨(h.erase p.handle).store, (h.erase p.handle).ranks⟩
  | top =>
    rw [Paired.apply]
    split
    · exact h
    · exact h
  | contract threshold =>
    have hkept := h.kept threshold s.bestBound h.ranks
    rw [Paired.apply, Step.state_map, contract_eq]
    exact ⟨hkept.store, hkept.ranks⟩
  | setBestBound bound =>
    rw [Paired.apply, Step.state_map]
    cases hb : bound.isNaN
    · obtain ⟨notices, hset⟩ := setBestBound_spec (s := s) hb
      rw [hset]
      exact ⟨h.store, h.renewed bound⟩
    · rw [(bound_of_isNaN hb).1]
      exact h
  | updateBestBound bound =>
    rw [Paired.apply, Step.state_map]
    cases hb : bound.isNaN
    · obtain ⟨notices, hupdate⟩ := updateBestBound_spec (s := s) hb
      have hkept := h.kept bound bound (h.renewed bound)
      rw [hupdate]
      exact ⟨hkept.store, hkept.ranks⟩
    · rw [(bound_of_isNaN hb).2]
      exact h
  | reorder =>
    rw [Paired.apply, Step.state_map, reorder_eq]
    exact ⟨h.store, s.ranks_bothAnew⟩
  | flush => exact sound_of_empty (.clear s.cells) (CellStore.pending_clear s.cells) rfl

/-- The only calls without an answer are a pop and a look at the top where nothing is pending, and
those with a bound that is no number. -/
theorem Sound.apply_error (h : s.Sound) {operation : Operation f} {failure : Failure}
    (hfailure : (s.apply operation).answer = .error failure) :
    (failure = .error .empty ∧ (operation = .pop ∨ operation = .top) ∧ s.cells.pending = []) ∨
      (failure = .fault .pairedBoundIsNaN ∧ ∃ bound, bound.isNaN = true ∧
        (operation = .setBestBound bound ∨ operation = .updateBestBound bound)) := by
  cases operation with
  | push cell =>
    obtain ⟨cells, views, handle, hpush, _⟩ := push_spec h cell
    rw [Paired.apply, hpush] at hfailure
    cases hfailure
  | pop =>
    by_cases hnil : s.cells.pending = []
    · rw [Paired.apply, (next_of_nil h hnil).1] at hfailure
      cases hfailure
      exact .inl ⟨rfl, .inl rfl, hnil⟩
    · obtain ⟨p, _, _, hpop⟩ := pop_spec h hnil
      rw [Paired.apply, hpop] at hfailure
      cases hfailure
  | top =>
    by_cases hnil : s.cells.pending = []
    · rw [Paired.apply, (next_of_nil h hnil).2] at hfailure
      cases hfailure
      exact .inl ⟨rfl, .inr rfl, hnil⟩
    · obtain ⟨p, _, htop, _⟩ := pop_spec h hnil
      rw [Paired.apply, htop] at hfailure
      cases hfailure
  | contract threshold =>
    rw [Paired.apply, contract_eq] at hfailure
    cases hfailure
  | setBestBound bound =>
    cases hb : bound.isNaN
    · obtain ⟨notices, hset⟩ := setBestBound_spec (s := s) hb
      rw [Paired.apply, hset] at hfailure
      cases hfailure
    · rw [Paired.apply, (bound_of_isNaN hb).1] at hfailure
      cases hfailure
      exact .inr ⟨rfl, bound, hb, .inl rfl⟩
  | updateBestBound bound =>
    cases hb : bound.isNaN
    · obtain ⟨notices, hupdate⟩ := updateBestBound_spec (s := s) hb
      rw [Paired.apply, hupdate] at hfailure
      cases hfailure
    · rw [Paired.apply, (bound_of_isNaN hb).2] at hfailure
      cases hfailure
      exact .inr ⟨rfl, bound, hb, .inr rfl⟩
  | reorder =>
    rw [Paired.apply, reorder_eq] at hfailure
    cases hfailure
  | flush => cases hfailure

/-! ## The check -/

/-- The check of a sound frontier finds nothing. -/
theorem Sound.check (h : s.Sound) : s.check = .ok () := by
  have hview : ∀ v, s.violationIn? v = none := by
    intro v
    have hviolation := Heap.violation?_eq_none_iff.2
      ⟨(h.ranks v).sound.indexed, (h.ranks v).sound.ordered⟩
    have hsize : (s.views.get v).size = s.cells.size := by rw [(h.ranks v).size, h.store.size]
    have hcell := (h.ranks v).find?_unknown (fun p hp => CellStore.contains_iff.2 ⟨p, hp, rfl⟩)
    have htwin := (h.ranks v).find?_unknown
      (fun p hp => (h.ranks v.other).contains_iff.2 ⟨p, hp, rfl⟩)
    unfold violationIn?
    simp only [hviolation, hsize, ne_eq, not_true_eq_false, if_false, hcell, htwin, Option.map_none]
  unfold Paired.check
  rw [hview, hview]
  rfl

end Paired

end BranchBound
