/-
A frontier with two views does what a frontier with one view does as long as one ranking decides
alone: the policy never leaves the view that has it, or both views have it. The two go in lockstep,
with the same store and the same queue in every view that has the ranking (`Lockstep.step`). Cells
are discarded by both views, so where cells are discarded the other view must not certify more for
any of them. Main statement (`Paired.answers_as_single`): along every such run both answer the same.
-/
import BranchBound.Proofs.Frontier.Effect

namespace BranchBound

variable {f : Format}

/-- A failure as a frontier with one view tells it. -/
def Failure.ofOneView : Failure → Failure
  | .fault .pairedBoundIsNaN => .fault .singleBoundIsNaN
  | failure => failure

/-- No view certifies a higher lower bound for the cell than the ranking does. -/
def Ranking.CertifiesMost (ranking : Ranking) (rankings : PerView Ranking) (cell : Cell f) : Prop :=
  ∀ view, ¬ ranking.certifiedLowerBound cell < (rankings.get view).certifiedLowerBound cell

theorem Binary.isNaN_ite {bound fallback : Binary f} (h : fallback.isNaN = false) :
    (if bound.isNaN then fallback else bound).isNaN = false := by
  split
  · exact h
  · rename_i hbound
    exact Bool.eq_false_iff.2 hbound

theorem Ranking.isNaN_certifiedLowerBound (ranking : Ranking) (cell : Cell f) :
    (ranking.certifiedLowerBound cell).isNaN = false :=
  Binary.isNaN_ite rfl

theorem Ranking.CertifiesMost.dominates {ranking : Ranking} {rankings : PerView Ranking}
    {cell : Cell f} (most : ranking.CertifiesMost rankings cell) {view : View} {threshold : Binary f}
    (h : (rankings.get view).dominates cell threshold = true) :
    ranking.dominates cell threshold = true := by
  have hcotrans := Binary.lt_cotrans (ranking.isNaN_certifiedLowerBound cell) (of_decide_eq_true h)
  exact decide_eq_true (hcotrans.resolve_right (most view))

namespace Statistics

/-- What frontiers of both kinds count alike: all but the views ranked anew and the pops of each
view. -/
def common (s : Statistics) : Statistics :=
  { s with poppedFirst := 0, poppedSecond := 0, reorders := 0 }

theorem common_reordered (s : Statistics) (more : Nat) :
    (countReorder^[more] s).common = s.common := by
  induction more with
  | zero => rfl
  | succ more ih => rw [Function.iterate_succ_apply', ← ih]; rfl

variable {s t : Statistics}

theorem common_countPush (h : s.common = t.common) (pending : Nat) :
    (s.countPush pending).common = (t.countPush pending).common :=
  congrArg (countPush · pending) h

theorem common_countPop (h : s.common = t.common) (view view' : View) :
    (s.countPop view).common = (t.countPop view').common := by
  have hcounted : ∀ (s : Statistics) view, (s.countPop view).common =
      { s.common with popped := Counter.raise s.common.popped 1 } := by
    intro s view
    cases view <;> rfl
  rw [hcounted, hcounted, h]

theorem common_countContraction (h : s.common = t.common) (discarded : Nat) :
    (s.countContraction discarded).common = (t.countContraction discarded).common :=
  congrArg (countContraction · discarded) h

theorem common_countBoundUpdate (h : s.common = t.common) :
    s.countBoundUpdate.common = t.countBoundUpdate.common :=
  congrArg countBoundUpdate h

theorem common_countFlush (h : s.common = t.common) (discarded : Nat) :
    (s.countFlush discarded).common = (t.countFlush discarded).common :=
  congrArg (countFlush · discarded) h

end Statistics

/-! ## Lockstep -/

/-- The frontiers have one store and one bound, each view with the ranking of the single one has its
queue, and such a view supplies the next pop and all others. -/
structure Lockstep (rankings : PerView Ranking) (ranking : Ranking) (s : Paired f) (t : Single f) :
    Prop where
  paired : s.Sound
  single : t.Sound
  cells : s.cells = t.cells
  bestBound : s.bestBound = t.bestBound
  queues : ∀ view, rankings.get view = ranking → s.views.get view = t.queue
  current : rankings.get s.currentView = ranking
  stays : s.turn.advance = s.turn ∨ ∀ view, rankings.get view = ranking
  statistics : s.statistics.common = t.statistics.common
  rankings_eq : s.rankings = rankings
  ranking_eq : t.ranking = ranking

namespace Lockstep

variable {rankings : PerView Ranking} {ranking : Ranking} {s : Paired f} {t : Single f}

/-- A view with the ranking of the single one ranks the same cells anew by the same bound. -/
theorem anew_eq {view : View} (hranking : s.rankings.get view = t.ranking)
    (hbound : s.bestBound = t.bestBound) (hcells : s.cells = t.cells) : s.anew view = t.anew := by
  unfold Paired.anew Single.anew
  rw [hranking, hbound, hcells]

theorem renewed_eq {view : View} (hranking : s.rankings.get view = t.ranking)
    (hbound : s.bestBound = t.bestBound) (hcells : s.cells = t.cells)
    (hqueue : s.views.get view = t.queue) : s.renewed.get view = t.renewed := by
  rw [Paired.get_renewed, Single.renewed, hranking, anew_eq hranking hbound hcells, hqueue]

theorem get_kept {view : View} {count : Nat} {views : PerView (Heap f)} {queue : Heap f}
    (hqueue : views.get view = queue) (hanew : s.anew view = t.anew) :
    (if count = 0 then views else s.bothAnew).get view = if count = 0 then queue else t.anew := by
  split
  · exact hqueue
  · rw [Paired.get_bothAnew, hanew]

theorem ranking_of_get (h : Lockstep rankings ranking s t) {view : View}
    (hview : rankings.get view = ranking) : s.rankings.get view = t.ranking := by
  rw [h.rankings_eq, h.ranking_eq, hview]

theorem peek?_eq (h : Lockstep rankings ranking s t) :
    (s.views.get s.currentView).peek? = t.queue.peek? := by
  rw [h.queues _ h.current]

/-- Both discard the same cells, since the other view would discard no more. -/
theorem discards_eq (h : Lockstep rankings ranking s t) {cell : Cell f}
    (most : ranking.CertifiesMost rankings cell) (threshold : Binary f) :
    s.discards threshold cell = t.ranking.dominates cell threshold := by
  have hdiscards : s.discards threshold cell = true ↔
      ∃ view, (rankings.get view).dominates cell threshold = true := by
    rw [← h.rankings_eq, Paired.discards, Bool.or_eq_true]
    constructor
    · rintro (hfirst | hsecond)
      · exact ⟨.first, hfirst⟩
      · exact ⟨.second, hsecond⟩
    · rintro ⟨view, hview⟩
      cases view
      · exact .inl hview
      · exact .inr hview
  rw [Bool.eq_iff_iff, hdiscards, h.ranking_eq]
  constructor
  · rintro ⟨view, hview⟩
    exact most.dominates hview
  · intro hdominates
    exact ⟨s.currentView, h.current.symm ▸ hdominates⟩

theorem kept_eq (h : Lockstep rankings ranking s t)
    (most : ∀ p ∈ s.cells.pending, ranking.CertifiesMost rankings p.cell) (threshold : Binary f) :
    s.discardCount threshold = t.discardCount threshold ∧ s.kept threshold = t.kept threshold := by
  have hdiscards : ∀ p ∈ s.cells.pending,
      s.discards threshold p.cell = t.ranking.dominates p.cell threshold :=
    fun p hp => h.discards_eq (most p hp) threshold
  constructor
  · unfold Paired.discardCount Single.discardCount
    rw [← h.cells]
    exact List.countP_congr fun p hp => by rw [hdiscards p hp]
  · unfold Paired.kept Single.kept Single.dominated
    rw [← h.cells, ← List.filter_congr hdiscards, ← Paired.map_fst_dominated, List.foldl_map]

/-- One operation: both answer the same and go on in lockstep. -/
theorem step (h : Lockstep rankings ranking s t) (operation : Operation f)
    (most : operation.contracts = true →
      ∀ p ∈ s.cells.pending, ranking.CertifiesMost rankings p.cell) :
    (s.apply operation).answer.mapError Failure.ofOneView = (t.apply operation).answer ∧
      Lockstep rankings ranking (s.apply operation).state (t.apply operation).state := by
  have paired := h.paired.apply operation
  have single := h.single.apply operation
  cases operation with
  | push cell =>
    obtain ⟨cells, handle, hinsert, _⟩ := CellStore.insert_spec h.paired.store cell
    obtain ⟨views, hviews, hpush, _⟩ := Paired.push_of_insert h.paired hinsert
    rw [h.cells] at hinsert
    obtain ⟨queue, hqueue, hpush', _⟩ := Single.push_of_insert h.single hinsert
    rw [Paired.apply, hpush, Step.map_done] at paired ⊢
    rw [Single.apply, hpush', Step.map_done] at single ⊢
    refine ⟨rfl, paired, single, rfl, h.bestBound, fun view hview => ?_, h.current, h.stays,
      Statistics.common_countPush h.statistics _, h.rankings_eq, h.ranking_eq⟩
    -- equal queues get equal entries
    have hpushed := hviews view
    rw [h.queues view hview, h.rankings_eq, hview, ← h.ranking_eq, h.bestBound, h.cells,
      hqueue] at hpushed
    exact (Except.ok.inj hpushed).symm
  | pop =>
    cases hpeek : t.queue.peek? with
    | none =>
      have hnil := h.single.ranks.peek?_eq_none_iff.1 hpeek
      rw [Paired.apply, (Paired.next_of_nil h.paired (h.cells ▸ hnil)).1, Single.apply,
        (Single.next_of_nil h.single hnil).1]
      exact ⟨rfl, h⟩
    | some e =>
      obtain ⟨p, hp, hmem, _, hpop⟩ := Paired.pop_of_peek? h.paired (h.peek?_eq.trans hpeek)
      obtain ⟨p', hp', hmem', _, _, hpop'⟩ := Single.pop_of_peek? h.single hpeek
      obtain rfl : p = p' :=
        CellStore.pending_inj hmem.1 (h.cells ▸ hmem'.1) (hp.trans hp'.symm)
      rw [Paired.apply, hpop, Step.map_done] at paired ⊢
      rw [Single.apply, hpop', Step.map_done] at single ⊢
      refine ⟨rfl, paired, single, congrArg (CellStore.erase · p.handle) h.cells,
        h.bestBound, fun view hview => ?_, ?_, ?_,
        Statistics.common_countPop h.statistics _ _, h.rankings_eq, h.ranking_eq⟩
      · show PerView.get ⟨s.views.first.erase p.handle, s.views.second.erase p.handle⟩ view =
          t.queue.erase p.handle
        rw [← h.queues view hview]
        cases view <;> rfl
      · rcases h.stays with hstays | hall
        · show rankings.get s.turn.advance.current = ranking
          rw [hstays]
          exact h.current
        · exact hall _
      · exact h.stays.imp_left fun hstays => congrArg Turn.advance hstays
  | top =>
    cases hpeek : t.queue.peek? with
    | none =>
      have hnil := h.single.ranks.peek?_eq_none_iff.1 hpeek
      rw [Paired.apply, (Paired.next_of_nil h.paired (h.cells ▸ hnil)).2, Single.apply,
        (Single.next_of_nil h.single hnil).2.1]
      exact ⟨rfl, h⟩
    | some e =>
      obtain ⟨p, hp, hmem, htop, _⟩ := Paired.pop_of_peek? h.paired (h.peek?_eq.trans hpeek)
      obtain ⟨p', hp', hmem', htop', _⟩ := Single.pop_of_peek? h.single hpeek
      obtain rfl : p = p' :=
        CellStore.pending_inj hmem.1 (h.cells ▸ hmem'.1) (hp.trans hp'.symm)
      rw [Paired.apply, htop, Single.apply, htop']
      exact ⟨rfl, h⟩
  | contract threshold =>
    obtain ⟨hcount, hkept⟩ := h.kept_eq (most rfl) threshold
    rw [Paired.apply, Paired.contract_eq, hcount, Step.map_done] at paired ⊢
    rw [Single.apply, Single.contract_eq, Step.map_done] at single ⊢
    refine ⟨rfl, paired, single, hkept, h.bestBound, fun view hview => ?_, h.current, h.stays,
      Statistics.common_countContraction h.statistics _, h.rankings_eq, h.ranking_eq⟩
    exact get_kept (h.queues view hview) (anew_eq (h.ranking_of_get hview) h.bestBound hkept)
  | setBestBound bound =>
    cases hb : bound.isNaN
    · rw [Paired.apply, Paired.setBestBound_eq hb, Step.map_done] at paired ⊢
      rw [Single.apply, Single.setBestBound_eq hb, Step.map_done] at single ⊢
      refine ⟨rfl, paired, single, h.cells, rfl, fun view hview => ?_, h.current, h.stays, ?_,
        h.rankings_eq, h.ranking_eq⟩
      · exact renewed_eq (h.ranking_of_get hview) rfl h.cells (h.queues view hview)
      · simp only [Step.done, Statistics.common_reordered]
        exact Statistics.common_countBoundUpdate h.statistics
    · rw [Paired.apply, (Paired.bound_of_isNaN hb).1, Single.apply, (Single.bound_of_isNaN hb).1]
      exact ⟨rfl, h⟩
  | updateBestBound bound =>
    cases hb : bound.isNaN
    · obtain ⟨hcount, hkept⟩ := h.kept_eq (most rfl) bound
      rw [Paired.apply, Paired.updateBestBound_eq hb, hcount, Step.map_done] at paired ⊢
      rw [Single.apply, Single.updateBestBound_eq hb, Step.map_done] at single ⊢
      refine ⟨rfl, paired, single, hkept, rfl, fun view hview => ?_, h.current, h.stays, ?_,
        h.rankings_eq, h.ranking_eq⟩
      · have hranking := h.ranking_of_get hview
        exact get_kept (renewed_eq hranking rfl h.cells (h.queues view hview))
          (anew_eq hranking rfl hkept)
      · simp only [Step.done, Statistics.common_reordered]
        exact Statistics.common_countContraction
          (Statistics.common_countBoundUpdate h.statistics) _
    · rw [Paired.apply, (Paired.bound_of_isNaN hb).2, Single.apply, (Single.bound_of_isNaN hb).2]
      exact ⟨rfl, h⟩
  | reorder =>
    rw [Paired.apply, Paired.reorder_eq, Step.map_done] at paired ⊢
    rw [Single.apply, Single.reorder_eq, Step.map_done] at single ⊢
    refine ⟨rfl, paired, single, h.cells, h.bestBound, fun view hview => ?_, h.current, h.stays,
      h.statistics, h.rankings_eq, h.ranking_eq⟩
    exact (s.get_bothAnew view).trans (anew_eq (h.ranking_of_get hview) h.bestBound h.cells)
  | flush =>
    have hsize : s.cells.size = t.cells.size := congrArg CellStore.size h.cells
    refine ⟨congrArg (fun n => Except.ok (Answer.count n)) hsize, paired, single,
      congrArg CellStore.clear h.cells, h.bestBound, fun view _ => ?_, h.current, h.stays, ?_,
      h.rankings_eq, h.ranking_eq⟩
    · cases view <;> rfl
    · show (s.statistics.countFlush s.cells.size).common = _
      rw [hsize]
      exact Statistics.common_countFlush h.statistics _

end Lockstep

/-! ## Runs -/

/-- One ranking decides about all pops: the policy never leaves a view that has it, or both views
have it. -/
def Settings.DecidedBy (settings : Settings f) (ranking : Ranking) : Prop :=
  (settings.policy = .firstOnly ∧ settings.rankings.first = ranking) ∨
    (settings.policy = .secondOnly ∧ settings.rankings.second = ranking) ∨
    ∀ view, settings.rankings.get view = ranking

namespace Paired

variable {settings : Settings f} {ranking : Ranking} {start : Paired f}

theorem lockstep_of_made (made : ofSettings? settings = .ok start)
    (decided : settings.DecidedBy ranking) :
    Lockstep settings.rankings ranking start (.ofRanking ranking settings.initialBound) := by
  have paired := sound_of_made made
  obtain rfl := eq_of_made made
  refine ⟨paired, Single.sound_ofRanking .., rfl, rfl, fun view _ => ?_, ?_, ?_, rfl, rfl, rfl⟩
  · cases view <;> rfl
  · show settings.rankings.get (Turn.start settings.policy).current = ranking
    rcases decided with ⟨hpolicy, hfirst⟩ | ⟨hpolicy, hsecond⟩ | hall
    · rw [hpolicy]
      exact hfirst
    · rw [hpolicy]
      exact hsecond
    · exact hall _
  · show (Turn.start settings.policy).advance = Turn.start settings.policy ∨ _
    rcases decided with ⟨hpolicy, _⟩ | ⟨hpolicy, _⟩ | hall
    · rw [hpolicy]
      exact .inl rfl
    · rw [hpolicy]
      exact .inl rfl
    · exact .inr hall

/-- Along every run a frontier with two views, of which one ranking decides about all pops, answers
what the frontier with that view alone answers: the same handles, cells, errors and counts. After it
both have the same cells under the same handles with the same recorded costs, the same bound, and
have counted alike. Where the run discards cells, the ranking certifies the most for all of them. -/
theorem answers_as_single (made : ofSettings? settings = .ok start)
    (decided : settings.DecidedBy ranking) {operations : List (Operation f)}
    (most : (∃ operation ∈ operations, operation.contracts = true) →
      ∀ cell, .push cell ∈ operations → ranking.CertifiesMost settings.rankings cell) :
    let single := Single.ofRanking ranking settings.initialBound
    let s := stateAfter apply start operations
    let t := stateAfter Single.apply single operations
    ((runFrom apply start operations).map fun step => step.answer.mapError Failure.ofOneView) =
      (runFrom Single.apply single operations).map (·.answer) ∧
    s.size = t.size ∧ s.bestBound = t.bestBound ∧ (∀ h, s.get? h = t.get? h) ∧
    (∀ view, settings.rankings.get view = ranking →
      ∀ h, s.recordedCost? view h = t.recordedCost? h) ∧
    s.statistics.common = t.statistics.common := by
  intro single s t
  have lockstep := lockstep_of_made made decided
  have none_pending : ∀ cell, cell ∉ start.cells.content := by
    obtain rfl := eq_of_made made
    exact Multiset.notMem_zero
  obtain ⟨hanswers, hend, -⟩ := runFrom_agrees_along
    (fun step => step.answer.mapError Failure.ofOneView) (fun step => step.answer)
    (R := fun rest s t => Lockstep settings.rankings ranking s t ∧
      ((∃ operation ∈ rest, operation.contracts = true) →
        ∀ cell, cell ∈ s.cells.content ∨ .push cell ∈ rest →
          ranking.CertifiesMost settings.rankings cell))
    (fun operation rest s t ⟨h, hmost⟩ => by
      obtain ⟨hanswer, hnext⟩ := h.step operation fun hcontracts p hp =>
        hmost ⟨operation, List.mem_cons_self, hcontracts⟩ p.cell
          (.inl (CellStore.mem_content_iff.2 ⟨p, hp, rfl⟩))
      refine ⟨hanswer, hnext, fun ⟨later, hlater, hcontracts⟩ cell hcell => ?_⟩
      refine hmost ⟨later, List.mem_cons_of_mem _ hlater, hcontracts⟩ cell ?_
      -- what is pending now was pending before or has just been pushed
      rcases hcell with hcell | hcell
      · rcases (h.paired.effect operation).mem_content hcell with hcell | rfl
        · exact .inl hcell
        · exact .inr List.mem_cons_self
      · exact .inr (List.mem_cons_of_mem _ hcell))
    ⟨lockstep, fun hcontracts cell hcell =>
      most hcontracts cell (hcell.resolve_left (none_pending cell))⟩
  refine ⟨hanswers, congrArg CellStore.size hend.cells, hend.bestBound,
    fun h => congrArg (CellStore.get? · h) hend.cells, fun view hview h => ?_, hend.statistics⟩
  exact congrArg (Heap.cost? · h) (hend.queues view hview)

/-- Only the second view supplies pops and its ranking certifies the more for both cells, so that
the update of the bound discards the same one. -/
theorem answers_as_single_second :
    let settings : Settings .binary64 :=
      ⟨⟨.goalLower 0, .estimateLower⟩, .secondOnly, .infinity⟩
    let start := ofSettings settings
    let better : Cell .binary64 := .ofRegion (.entire 1)
    let worse : Cell .binary64 := { Cell.ofRegion (.entire 2) with estimate := ⟨.one, .infinity⟩ }
    let operations : List (Operation .binary64) :=
      [.push worse, .push better, .top, .updateBestBound .nan, .updateBestBound .zero,
        .push better, .reorder, .pop]
    let single := Single.ofRanking .estimateLower settings.initialBound
    ofSettings? settings = .ok start ∧ settings.DecidedBy .estimateLower ∧
      (∀ cell, .push cell ∈ operations →
        Ranking.estimateLower.CertifiesMost settings.rankings cell) ∧
      ((runFrom apply start operations).map fun step => step.answer.mapError Failure.ofOneView) =
        (runFrom Single.apply single operations).map (·.answer) ∧
      (stateAfter apply start operations).statistics.common =
        (stateAfter Single.apply single operations).statistics.common := by
  intro settings start better worse operations single
  have made : ofSettings? settings = .ok start := rfl
  have decided : settings.DecidedBy .estimateLower := .inr (.inl ⟨rfl, rfl⟩)
  have most : ∀ cell, .push cell ∈ operations →
      Ranking.estimateLower.CertifiesMost settings.rankings cell := by
    intro cell hcell view
    have hcell : cell = worse ∨ cell = better := by
      simpa [operations, or_comm] using hcell
    rcases hcell with rfl | rfl
    · cases view <;> decide +kernel
    · cases view <;> decide +kernel
  obtain ⟨answers, -, -, -, -, statistics⟩ := answers_as_single made decided fun _ => most
  exact ⟨made, decided, most, answers, statistics⟩

end Paired

end BranchBound
