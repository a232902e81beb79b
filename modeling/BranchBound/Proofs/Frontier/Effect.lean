/-
What a call does to a frontier, told once for both kinds. An outline is what can be told of a
frontier without handles, costs and queues: the pending cells, their sequence numbers, the view whose
turn it is, the best known bound, the statistics, and which cells the rankings dominate. A call has one of ten effects on
it (`Effect`), each with its answer and its notices. Main statements (`Paired.Sound.effect`,
`Single.Sound.effect`): every call on a sound frontier has such an effect. What holds of a frontier
without cells, and of every run that one more effect prolongs, holds of all runs
(`Kind.run_induction`).
-/
import BranchBound.Proofs.Frontier.Consistency
import BranchBound.Proofs.Frontier.Single
import Mathlib.Data.List.Induction

namespace BranchBound

variable {f : Format}

/-- What can be told of a frontier of either kind. -/
structure Outline (f : Format) where
  /-- The pending cells. -/
  content : Multiset (Cell f)
  /-- Their sequence numbers. -/
  numbering : Numbering
  /-- The view that supplies the next pop. -/
  view : View
  bestBound : Binary f
  statistics : Statistics
  /-- Whether there is such a view, and its ranking says that a cell cannot be better than a
  threshold. -/
  dominates : View → Cell f → Binary f → Bool

/-- The view says that the cell cannot be better than a threshold, and no view before it does. -/
def Outline.Condemns (a : Outline f) (threshold : Binary f) (cell : Cell f) (view : View) : Prop :=
  a.dominates view cell threshold = true ∧
    (view = .second → a.dominates .first cell threshold = false)

/-- The cells that a contraction takes out, each with the view that condemns it, and the rest. -/
structure Outline.Parts (a : Outline f) (threshold : Binary f) (out : List (Cell f × View))
    (rest : Multiset (Cell f)) : Prop where
  content : a.content = ↑(out.map Prod.fst) + rest
  condemned : ∀ d ∈ out, a.Condemns threshold d.1 d.2
  kept : ∀ cell ∈ rest, ∀ view, a.dominates view cell threshold = false

/-- The notices of cells that a contraction takes out. -/
def Notice.prunes (threshold : Binary f) (statistics : Statistics) (out : List (Cell f × View)) :
    List (Notice f) :=
  out.map fun d => ⟨.prune d.1 d.2 threshold, statistics⟩

/-- The kinds of events, of the pops one for each view. -/
inductive Event.Kind where
  | push
  | pop (view : View)
  | prune
  | bound
  | reorder
  | flush
  deriving DecidableEq

namespace Event

def kind : Event f → Kind
  | push _ _ => .push
  | pop view _ => .pop view
  | prune _ _ _ => .prune
  | bound _ _ => .bound
  | reorder _ => .reorder
  | flush _ => .flush

@[simp]
theorem kind_push (h : CellHandle) (cell : Cell f) : (push h cell).kind = .push := rfl

@[simp]
theorem kind_pop (view : View) (cell : Cell f) : (pop view cell).kind = .pop view := rfl

@[simp]
theorem kind_prune (cell : Cell f) (view : View) (threshold : Binary f) :
    (prune cell view threshold).kind = .prune := rfl

@[simp]
theorem kind_bound (previous current : Binary f) : (bound previous current).kind = .bound := rfl

@[simp]
theorem kind_reorder (view : View) : (reorder view : Event f).kind = .reorder := rfl

@[simp]
theorem kind_flush (discarded : Nat) : (flush discarded : Event f).kind = .flush := rfl

end Event

@[simp]
theorem Notice.countP_prunes (threshold : Binary f) (statistics : Statistics)
    (out : List (Cell f × View)) (kind : Event.Kind) :
    (Notice.prunes threshold statistics out).countP (·.event.kind == kind) =
      if kind = .prune then out.length else 0 := by
  rw [Notice.prunes, List.countP_map]
  by_cases hkind : kind = .prune
  · subst hkind
    simp [Function.comp_def]
  · simp [Function.comp_def, hkind, Ne.symm hkind]

@[simp]
theorem Notice.countP_reorders (statistics : Statistics) (views : List View) (kind : Event.Kind) :
    (Notice.reorders (f := f) statistics views).countP (·.event.kind == kind) =
      if kind = .reorder then views.length else 0 := by
  induction views generalizing statistics with
  | nil => simp [Notice.reorders]
  | cons view rest ih =>
    rw [Notice.reorders, List.countP_cons, ih]
    by_cases hkind : kind = .reorder
    · simp [hkind]
    · simp [hkind, Ne.symm hkind]

/-- What a call of an operation may do. -/
inductive Effect (a : Outline f) : Operation f → Step (Outline f) f (Answer f) → Prop
  | push {cell : Cell f} {handle : CellHandle} {statistics : Statistics}
      (counted : statistics = a.statistics.countPush (a.content.card + 1)) :
      Effect a (.push cell)
        (.done
          { a with
            content := cell ::ₘ a.content
            numbering := a.numbering.push
            statistics := statistics } (.handle handle)
          [⟨.push handle cell, statistics⟩])
  | pop {cell : Cell f} {rest : Multiset (Cell f)} {numbering : Numbering} {view : View}
      {statistics : Statistics} (content : a.content = cell ::ₘ rest)
      (counted : statistics = a.statistics.countPop a.view)
      (numbers : a.numbering.Keeps numbering) :
      Effect a .pop
        (.done
          { a with
            content := rest
            numbering := numbering
            view := view
            statistics := statistics } (.cell cell)
          [⟨.pop a.view cell, statistics⟩])
  | top {cell : Cell f} (mem : cell ∈ a.content) : Effect a .top (.done a (.cell cell) [])
  | empty {operation : Operation f} (which : operation = .pop ∨ operation = .top)
      (content : a.content = 0) : Effect a operation (.failed a .empty)
  | contract {threshold : Binary f} {out : List (Cell f × View)} {rest : Multiset (Cell f)}
      {numbering : Numbering} {statistics : Statistics} (parts : a.Parts threshold out rest)
      (counted : statistics = a.statistics.countContraction out.length)
      (numbers : a.numbering.Keeps numbering) :
      Effect a (.contract threshold)
        (.done { a with content := rest, numbering := numbering, statistics := statistics }
          (.count out.length) (Notice.prunes threshold statistics out))
  /-- A bound that is no number. -/
  | refused {operation : Operation f} {bound : Binary f} {fault : FrontierFault}
      (which : operation = .setBestBound bound ∨ operation = .updateBestBound bound)
      (nan : bound.isNaN = true) : Effect a operation (.faulted a fault [])
  | setBestBound {bound : Binary f} {statistics : Statistics} (views : List View)
      (numeric : bound.isNaN = false)
      (counted : statistics =
        Statistics.countReorder^[views.length] a.statistics.countBoundUpdate) :
      Effect a (.setBestBound bound)
        (.done { a with bestBound := bound, statistics := statistics } .unit
          (Notice.reorders a.statistics.countBoundUpdate views ++
            [⟨.bound a.bestBound bound, statistics⟩]))
  | updateBestBound {bound : Binary f} {out : List (Cell f × View)} {rest : Multiset (Cell f)}
      {numbering : Numbering} {contracted statistics : Statistics} (views : List View)
      (numeric : bound.isNaN = false) (parts : a.Parts bound out rest)
      (contraction : contracted = a.statistics.countBoundUpdate.countContraction out.length)
      (counted : statistics = Statistics.countReorder^[views.length] contracted)
      (numbers : a.numbering.Keeps numbering) :
      Effect a (.updateBestBound bound)
        (.done
          { a with
            content := rest
            numbering := numbering
            bestBound := bound
            statistics := statistics } (.count out.length)
          (Notice.prunes bound contracted out ++ (Notice.reorders contracted views ++
            [⟨.bound a.bestBound bound, statistics⟩])))
  | reorder {statistics : Statistics} (views : List View)
      (counted : statistics = Statistics.countReorder^[views.length] a.statistics) :
      Effect a .reorder
        (.done { a with statistics := statistics } .unit (Notice.reorders a.statistics views))
  | flush {numbering : Numbering} {statistics : Statistics}
      (counted : statistics = a.statistics.countFlush a.content.card)
      (numbers : a.numbering.Keeps numbering) :
      Effect a .flush
        (.done { a with content := 0, numbering := numbering, statistics := statistics }
          (.count a.content.card) [⟨.flush a.content.card, statistics⟩])

/-- A cell that is in after a call was in before it, unless the call has put it in. -/
theorem Effect.mem_content {a : Outline f} {operation : Operation f}
    {step : Step (Outline f) f (Answer f)} (h : Effect a operation step) {cell : Cell f}
    (hcell : cell ∈ step.state.content) : cell ∈ a.content ∨ operation = .push cell := by
  cases h with
  | push counted =>
    rcases Multiset.mem_cons.1 hcell with rfl | hcell
    · exact .inr rfl
    · exact .inl hcell
  | pop content counted => exact .inl (content ▸ Multiset.mem_cons_of_mem hcell)
  | contract parts counted =>
    rw [parts.content]
    exact .inl (Multiset.mem_add.2 (.inr hcell))
  | updateBestBound views numeric parts contraction counted =>
    rw [parts.content]
    exact .inl (Multiset.mem_add.2 (.inr hcell))
  | flush counted => exact absurd hcell (Multiset.notMem_zero cell)
  | _ => exact .inl hcell

/-! ## Two views -/

namespace Paired

variable {s : Paired f}

def outline (s : Paired f) : Outline f where
  content := s.cells.content
  numbering := s.cells.numbering
  view := s.currentView
  bestBound := s.bestBound
  statistics := s.statistics
  dominates view cell threshold := (s.rankings.get view).dominates cell threshold

theorem condemns_of_dominatingView? {threshold : Binary f} {cell : Cell f} {view : View}
    (h : s.dominatingView? threshold cell = some view) :
    s.outline.Condemns threshold cell view := by
  unfold dominatingView? at h
  cases hfirst : s.rankings.first.dominates cell threshold
  · cases hsecond : s.rankings.second.dominates cell threshold
    · simp [hfirst, hsecond] at h
    · simp only [hfirst, hsecond, Bool.false_eq_true, if_false, if_true, Option.some.injEq] at h
      subst h
      exact ⟨hsecond, fun _ => hfirst⟩
  · simp only [hfirst, if_true, Option.some.injEq] at h
    subst h
    exact ⟨hfirst, nofun⟩

/-- The cells that a contraction takes out. -/
def condemned (s : Paired f) (threshold : Binary f) : List (Cell f × View) :=
  (s.dominated threshold).map fun d => (d.1.cell, d.2)

theorem length_condemned (s : Paired f) (threshold : Binary f) :
    (s.condemned threshold).length = s.discardCount threshold := by
  rw [condemned, List.length_map, length_dominated]

theorem Sound.parts (h : s.Sound) (threshold : Binary f) :
    s.outline.Parts threshold (s.condemned threshold) (s.kept threshold).content := by
  have hpending := (kept_spec h.store threshold).2.1
  constructor
  · have hout : (s.condemned threshold).map Prod.fst =
        (s.cells.pending.filter fun p => s.discards threshold p.cell).map (·.cell) := by
      rw [← map_fst_dominated, condemned, List.map_map, List.map_map]
      rfl
    rw [hout]
    exact CellStore.content_filter _ hpending
  · intro d hd
    obtain ⟨⟨p, view⟩, hmem, rfl⟩ := List.mem_map.1 hd
    obtain ⟨p, _, hview⟩ := List.mem_filterMap.1 hmem
    obtain ⟨view, hview, heq⟩ := Option.map_eq_some_iff.1 hview
    cases heq
    exact condemns_of_dominatingView? hview
  · intro cell hcell view
    obtain ⟨p, hp, rfl⟩ := CellStore.mem_content_iff.1 hcell
    rw [hpending, List.mem_filter, Bool.not_eq_true', discards, Bool.or_eq_false_iff] at hp
    cases view
    · exact hp.2.1
    · exact hp.2.2

theorem Sound.keeps_kept (h : s.Sound) (threshold : Binary f) :
    s.cells.numbering.Keeps (s.kept threshold).numbering :=
  let ⟨_, hpending, hseq⟩ := kept_spec h.store threshold
  CellStore.keeps_of_filter hpending hseq

/-- Every call on a sound frontier with two views has its effect. -/
theorem Sound.effect (h : s.Sound) (operation : Operation f) :
    Effect s.outline operation ((s.apply operation).mapState outline) := by
  cases operation with
  | push cell =>
    obtain ⟨cells, views, handle, hpush, sound, _, hperm, hseq⟩ := push_spec h cell
    have hcontent : cells.content = cell ::ₘ s.cells.content := CellStore.content_of_perm_cons hperm
    have hsize : cells.size = s.cells.content.card + 1 := by
      rw [← sound.store.card_content, hcontent, Multiset.card_cons]
    rw [Paired.apply, hpush]
    -- the store counts the cells that are pending with the new one
    show Effect s.outline _ (.done
      { s.outline with
        content := cells.content
        numbering := cells.numbering
        statistics := s.statistics.countPush cells.size } _ _)
    rw [hcontent, CellStore.numbering_of_perm_cons rfl hperm hseq, hsize]
    exact .push rfl
  | pop =>
    by_cases hnil : s.cells.pending = []
    · rw [Paired.apply, (next_of_nil h hnil).1]
      exact .empty (.inl rfl) (CellStore.content_eq_zero_iff.2 hnil)
    · obtain ⟨p, hp, _, hpop⟩ := pop_spec h hnil
      rw [Paired.apply, hpop]
      obtain ⟨_, hpending, hseq⟩ := CellStore.erase_spec h.store p.handle
      exact .pop (CellStore.content_erase h.store hp.1) rfl (CellStore.keeps_of_filter hpending hseq)
  | top =>
    by_cases hnil : s.cells.pending = []
    · rw [Paired.apply, (next_of_nil h hnil).2]
      exact .empty (.inr rfl) (CellStore.content_eq_zero_iff.2 hnil)
    · obtain ⟨p, hp, htop, _⟩ := pop_spec h hnil
      rw [Paired.apply, htop]
      exact .top (CellStore.mem_content_iff.2 ⟨p, hp.1, rfl⟩)
  | contract threshold =>
    have heffect := Effect.contract (h.parts threshold) rfl (h.keeps_kept threshold)
    rw [length_condemned, condemned, Notice.prunes, List.map_map] at heffect
    rw [Paired.apply, contract_eq]
    exact heffect
  | setBestBound bound =>
    cases hb : bound.isNaN
    · rw [Paired.apply, setBestBound_eq hb]
      exact .setBestBound _ hb (by rw [length_dependentViews]; rfl)
    · rw [Paired.apply, (bound_of_isNaN hb).1]
      exact .refused (.inl rfl) hb
  | updateBestBound bound =>
    cases hb : bound.isNaN
    · have heffect := Effect.updateBestBound
        (if s.discardCount bound = 0 then s.dependentViews else []) hb (h.parts bound) rfl rfl
        (h.keeps_kept bound)
      rw [length_condemned, condemned, Notice.prunes, List.map_map, apply_ite List.length,
        length_dependentViews] at heffect
      rw [Paired.apply, updateBestBound_eq hb]
      exact heffect
    · rw [Paired.apply, (bound_of_isNaN hb).2]
      exact .refused (.inr rfl) hb
  | reorder =>
    rw [Paired.apply, reorder_eq]
    exact .reorder [.first, .second] rfl
  | flush =>
    have heffect := Effect.flush (a := s.outline) rfl (CellStore.keeps_clear s.cells)
    rw [show s.outline.content.card = s.cells.size from h.store.card_content] at heffect
    exact heffect

end Paired

/-! ## One view -/

namespace Single

variable {s : Single f}

def outline (s : Single f) : Outline f where
  content := s.cells.content
  numbering := s.cells.numbering
  view := .first
  bestBound := s.bestBound
  statistics := s.statistics
  dominates
    | .first, cell, threshold => s.ranking.dominates cell threshold
    | .second, _, _ => false

/-- The cells that a contraction takes out. -/
def condemned (s : Single f) (threshold : Binary f) : List (Cell f × View) :=
  (s.dominated threshold).map fun p => (p.cell, .first)

theorem length_condemned (s : Single f) (threshold : Binary f) :
    (s.condemned threshold).length = s.discardCount threshold := by
  rw [condemned, List.length_map, length_dominated]

theorem Sound.parts (h : s.Sound) (threshold : Binary f) :
    s.outline.Parts threshold (s.condemned threshold) (s.kept threshold).content := by
  have hpending := (kept_spec h.store threshold).2.1
  constructor
  · rw [condemned, List.map_map]
    exact CellStore.content_filter (s.ranking.dominates · threshold) hpending
  · intro d hd
    obtain ⟨p, hp, rfl⟩ := List.mem_map.1 hd
    exact ⟨(List.mem_filter.1 hp).2, nofun⟩
  · intro cell hcell view
    obtain ⟨p, hp, rfl⟩ := CellStore.mem_content_iff.1 hcell
    rw [hpending, List.mem_filter, Bool.not_eq_true'] at hp
    cases view
    · exact hp.2
    · rfl

theorem Sound.keeps_kept (h : s.Sound) (threshold : Binary f) :
    s.cells.numbering.Keeps (s.kept threshold).numbering :=
  let ⟨_, hpending, hseq⟩ := kept_spec h.store threshold
  CellStore.keeps_of_filter hpending hseq

/-- Every call on a sound frontier with one view has its effect. -/
theorem Sound.effect (h : s.Sound) (operation : Operation f) :
    Effect s.outline operation ((s.apply operation).mapState outline) := by
  cases operation with
  | push cell =>
    obtain ⟨cells, queue, handle, hpush, sound, _, hperm, hseq⟩ := push_spec h cell
    have hcontent : cells.content = cell ::ₘ s.cells.content := CellStore.content_of_perm_cons hperm
    have hsize : cells.size = s.cells.content.card + 1 := by
      rw [← sound.store.card_content, hcontent, Multiset.card_cons]
    rw [Single.apply, hpush]
    -- the store counts the cells that are pending with the new one
    show Effect s.outline _ (.done
      { s.outline with
        content := cells.content
        numbering := cells.numbering
        statistics := s.statistics.countPush cells.size } _ _)
    rw [hcontent, CellStore.numbering_of_perm_cons rfl hperm hseq, hsize]
    exact .push rfl
  | pop =>
    by_cases hnil : s.cells.pending = []
    · rw [Single.apply, (next_of_nil h hnil).1]
      exact .empty (.inl rfl) (CellStore.content_eq_zero_iff.2 hnil)
    · obtain ⟨p, hp, _, _, hpop⟩ := pop_spec h hnil
      rw [Single.apply, hpop]
      obtain ⟨_, hpending, hseq⟩ := CellStore.erase_spec h.store p.handle
      exact .pop (CellStore.content_erase h.store hp.1) rfl (CellStore.keeps_of_filter hpending hseq)
  | top =>
    by_cases hnil : s.cells.pending = []
    · rw [Single.apply, (next_of_nil h hnil).2.1]
      exact .empty (.inr rfl) (CellStore.content_eq_zero_iff.2 hnil)
    · obtain ⟨p, hp, htop, _⟩ := pop_spec h hnil
      rw [Single.apply, htop]
      exact .top (CellStore.mem_content_iff.2 ⟨p, hp.1, rfl⟩)
  | contract threshold =>
    have heffect := Effect.contract (h.parts threshold) rfl (h.keeps_kept threshold)
    rw [length_condemned, condemned, Notice.prunes, List.map_map] at heffect
    rw [Single.apply, contract_eq]
    exact heffect
  | setBestBound bound =>
    cases hb : bound.isNaN
    · rw [Single.apply, setBestBound_eq hb]
      exact .setBestBound _ hb (by rw [length_dependentViews]; rfl)
    · rw [Single.apply, (bound_of_isNaN hb).1]
      exact .refused (.inl rfl) hb
  | updateBestBound bound =>
    cases hb : bound.isNaN
    · have heffect := Effect.updateBestBound
        (if s.discardCount bound = 0 then s.dependentViews else []) hb (h.parts bound) rfl rfl
        (h.keeps_kept bound)
      rw [length_condemned, condemned, Notice.prunes, List.map_map, apply_ite List.length,
        length_dependentViews] at heffect
      rw [Single.apply, updateBestBound_eq hb]
      exact heffect
    · rw [Single.apply, (bound_of_isNaN hb).2]
      exact .refused (.inr rfl) hb
  | reorder =>
    rw [Single.apply, reorder_eq]
    exact .reorder [.first] rfl
  | flush =>
    have heffect := Effect.flush (a := s.outline) rfl (CellStore.keeps_clear s.cells)
    rw [show s.outline.content.card = s.cells.size from h.store.card_content] at heffect
    exact heffect

end Single

/-! ## Runs of either kind -/

/-- A kind of frontier, whose calls have effects and keep it sound. -/
structure Kind (σ : Type) (f : Format) where
  apply : σ → Operation f → Step σ f (Answer f)
  cells : σ → CellStore f
  outline : σ → Outline f
  /-- The number of pending cells. -/
  size : σ → Nat
  Sound : σ → Prop
  keeps : ∀ {s}, Sound s → ∀ operation, Sound (apply s operation).state
  effect : ∀ {s}, Sound s → ∀ operation,
    Effect (outline s) operation ((apply s operation).mapState outline)
  content_outline : ∀ s, (outline s).content = (cells s).content
  numbering_outline : ∀ s, (outline s).numbering = (cells s).numbering
  card_content : ∀ {s}, Sound s → (outline s).content.card = size s

def Paired.kind : Kind (Paired f) f where
  apply := Paired.apply
  cells := Paired.cells
  outline := Paired.outline
  size := Paired.size
  Sound := Paired.Sound
  keeps h := h.apply
  effect h := h.effect
  content_outline _ := rfl
  numbering_outline _ := rfl
  card_content h := h.store.card_content

def Single.kind : Kind (Single f) f where
  apply := Single.apply
  cells := Single.cells
  outline := Single.outline
  size := Single.size
  Sound := Single.Sound
  keeps h := h.apply
  effect h := h.effect
  content_outline _ := rfl
  numbering_outline _ := rfl
  card_content h := h.store.card_content

/-- What holds at the start, and of every run that is prolonged by one call, holds of all runs. -/
theorem Kind.run_induction {σ : Type} (k : Kind σ f) {start : σ} (sound : k.Sound start)
    {Q : List (Call σ f) → σ → Prop} (nil : Q [] start)
    (snoc : ∀ calls s operation, k.Sound s → Q calls s →
      Q (calls ++ [⟨s, operation, k.apply s operation⟩]) (k.apply s operation).state)
    (operations : List (Operation f)) :
    k.Sound (stateAfter k.apply start operations) ∧
      Q (callsFrom k.apply start operations) (stateAfter k.apply start operations) := by
  induction operations using List.reverseRecOn with
  | nil => exact ⟨sound, nil⟩
  | append_singleton operations operation ih =>
    obtain ⟨hsound, hrun⟩ := ih
    rw [callsFrom_append_singleton, stateAfter_append_singleton]
    exact ⟨k.keeps hsound operation, snoc _ _ operation hsound hrun⟩

end BranchBound
