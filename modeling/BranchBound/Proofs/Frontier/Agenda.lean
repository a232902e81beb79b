/-
A frontier with two views does what a plain list of cells would do. The list (`Agenda`) has the
pending cells in the order of their pushes, the best known bound and the number of pops so far; it
knows no handles, no queues and no costs but those it computes when it looks for the next cell,
which is the first of the cheapest ones in the view whose turn it is (`Agenda.next?_eq_some_iff`).
Main statement (`Paired.answers_as_agenda`): along every run both answer the same.
-/
import BranchBound.Proofs.Frontier.Consistency
import BranchBound.Proofs.Frontier.PushOrder
import BranchBound.Proofs.Least

namespace BranchBound

variable {f : Format}

/-- The view that supplies a pop before which there were so many others. It can be told without
passing a turn on: by the number of pops (`Policy.viewAt_strict`, `Policy.viewAt_firstOnly`,
`Policy.viewAt_secondOnly`, `Policy.viewAt_quota`), and for percentages by the stream of draws
(`BranchBound.Proofs.Alternation.Percentage`). -/
def Policy.viewAt (policy : Policy) (pops : Nat) : View :=
  (Turn.advance^[pops] (.start policy)).current

/-! ## The plain list -/

/-- The pending cells as a plain list. -/
structure Agenda (f : Format) where
  /-- The pending cells in the order of their pushes. -/
  cells : List (Cell f)
  /-- The best known bound. -/
  bestBound : Binary f
  /-- The number of cells that were popped. -/
  pops : Nat

namespace Agenda

/-- The list without cells. -/
def ofSettings (settings : Settings f) : Agenda f := ⟨[], settings.initialBound, 0⟩

/-- The cost of a cell in the view whose turn it is. -/
def costNow (settings : Settings f) (a : Agenda f) (cell : Cell f) : Binary f :=
  (settings.rankings.get (settings.policy.viewAt a.pops)).cost cell a.bestBound

/-- The next cell and the cells without it: the cell of least cost, and of several the one pushed
first. -/
def next? (settings : Settings f) (a : Agenda f) : Option (Cell f × List (Cell f)) :=
  takeLeast? (fun cell other => decide (a.costNow settings cell < a.costNow settings other)) a.cells

theorem next?_eq_none_iff {settings : Settings f} {a : Agenda f} :
    a.next? settings = none ↔ a.cells = [] :=
  takeLeast?_eq_none_iff

/-- The next cell costs less than all cells pushed before it and no more than those pushed after
it. -/
theorem next?_eq_some_iff {settings : Settings f} {a : Agenda f} {cell : Cell f}
    {others : List (Cell f)} :
    a.next? settings = some (cell, others) ↔
      ∃ before after, a.cells = before ++ cell :: after ∧ others = before ++ after ∧
        (∀ b ∈ before, a.costNow settings cell < a.costNow settings b) ∧
        ∀ b ∈ after, ¬ a.costNow settings b < a.costNow settings cell := by
  unfold next?
  rw [takeLeast?_eq_some_iff]
  · simp only [decide_eq_true_eq, decide_eq_false_iff_not]
  · intro b c h
    exact decide_eq_false (Binary.lt_asymm (of_decide_eq_true h))
  · intro b c d h
    rw [decide_eq_true_iff, decide_eq_true_iff]
    exact Binary.lt_cotrans (Ranking.isNaN_cost ..) (of_decide_eq_true h)

/-- Whether one of the rankings says that a cell cannot be better than a threshold. -/
def discards (settings : Settings f) (threshold : Binary f) (cell : Cell f) : Bool :=
  settings.rankings.first.dominates cell threshold ||
    settings.rankings.second.dominates cell threshold

/-- Deletes the cells that cannot be better than a threshold and answers how many there were. -/
def contract (settings : Settings f) (a : Agenda f) (threshold : Binary f) :
    Step (Agenda f) f (Answer f) :=
  .done { a with cells := a.cells.filter fun cell => !discards settings threshold cell }
    (.count (a.cells.countP (discards settings threshold))) []

/-- One operation. A push answers no handle, since there are none. -/
def apply (settings : Settings f) (a : Agenda f) : Operation f → Step (Agenda f) f (Answer f)
  | .push cell => .done { a with cells := a.cells ++ [cell] } .unit []
  | .pop =>
    match a.next? settings with
    | none => .failed a .empty
    | some (cell, others) => .done { a with cells := others, pops := a.pops + 1 } (.cell cell) []
  | .top =>
    match a.next? settings with
    | none => .failed a .empty
    | some (cell, _) => .done a (.cell cell) []
  | .contract threshold => a.contract settings threshold
  | .setBestBound bound => .done { a with bestBound := bound } .unit []
  | .updateBestBound bound => { a with bestBound := bound }.contract settings bound
  | .reorder => .done a .unit []
  | .flush => .done { a with cells := [] } (.count a.cells.length) []

end Agenda

/-! ## The list beside the frontier -/

namespace Paired

variable {settings : Settings f} {pushes : Nat} {s : Paired f} {a : Agenda f}

/-- The agenda has the pending cells of a sound frontier in push order, the same bound and the same
turn, and the sequence numbers will last for so many pushes. -/
structure Mirrors (settings : Settings f) (pushes : Nat) (s : Paired f) (a : Agenda f) : Prop where
  sound : s.Sound
  rankings : s.rankings = settings.rankings
  turn : s.turn = Turn.advance^[a.pops] (.start settings.policy)
  bound : s.bestBound = a.bestBound
  room : s.cells.nextSeq + pushes ≤ Counter.limit
  cells : ∃ l, InPushOrder l s.cells ∧ a.cells = l.map (·.cell)

namespace Mirrors

theorem size (h : Mirrors settings pushes s a) : s.size = a.cells.length := by
  obtain ⟨l, hl, hcells⟩ := h.cells
  rw [hcells, List.length_map, hl.perm.length_eq]
  exact h.sound.store.size

theorem next?_of_nil (h : Mirrors settings pushes s a) (hnil : s.cells.pending = []) :
    a.next? settings = none := by
  obtain ⟨l, hl, hcells⟩ := h.cells
  rw [Agenda.next?_eq_none_iff, hcells, hl.eq_nil_iff.2 hnil, List.map_nil]

/-- The frontier's next cell is that of the agenda. -/
theorem next?_of_isNext (h : Mirrors settings pushes s a) {p : Pending f}
    (hp : s.IsNext s.currentView p) :
    ∃ l, InPushOrder l (s.cells.erase p.handle) ∧
      a.next? settings = some (p.cell, l.map (·.cell)) := by
  obtain ⟨l, hl, hcells⟩ := h.cells
  obtain ⟨before, after, rfl, hfilter, hbefore, hafter⟩ := hl.split_next hp.1 hp.2
  obtain ⟨_, hpending, hseq⟩ := CellStore.erase_spec h.sound.store p.handle
  refine ⟨before ++ after, hfilter ▸ hl.filter hpending hseq, ?_⟩
  have hcost : ∀ cell, (s.rankings.get s.currentView).cost cell s.bestBound =
      a.costNow settings cell := by
    intro cell
    rw [show s.currentView = settings.policy.viewAt a.pops from congrArg Turn.current h.turn,
      h.rankings, h.bound]
    rfl
  simp only [hcost] at hbefore hafter
  rw [Agenda.next?_eq_some_iff]
  refine ⟨before.map (·.cell), after.map (·.cell), ?_, List.map_append, ?_, ?_⟩
  · rw [hcells, List.map_append, List.map_cons]
  · intro b hb
    obtain ⟨p', hp', rfl⟩ := List.mem_map.1 hb
    exact (hbefore p' hp').2
  · intro b hb
    obtain ⟨p', hp', rfl⟩ := List.mem_map.1 hb
    exact (hafter p' hp').2

/-- The frontier and the agenda delete the same cells. -/
theorem contract (h : Mirrors settings pushes s a) (threshold : Binary f) :
    s.discardCount threshold = a.cells.countP (Agenda.discards settings threshold) ∧
      ∃ l, InPushOrder l (s.kept threshold) ∧
        (a.cells.filter fun cell => !Agenda.discards settings threshold cell) =
          l.map (·.cell) := by
  obtain ⟨l, hl, hcells⟩ := h.cells
  obtain ⟨_, hpending, hseq⟩ := kept_spec h.sound.store threshold
  have hdiscards : s.discards threshold = Agenda.discards settings threshold := by
    unfold discards Agenda.discards
    rw [h.rankings]
  constructor
  · unfold discardCount
    rw [hcells, List.countP_map, ← hl.perm.countP_eq, hdiscards]
    rfl
  · refine ⟨_, hl.filter hpending hseq, ?_⟩
    rw [hcells, List.filter_map, hdiscards]
    rfl

theorem room_kept (h : Mirrors settings pushes s a) (threshold : Binary f) :
    (s.kept threshold).nextSeq + pushes ≤ Counter.limit := by
  rw [(kept_spec h.sound.store threshold).2.2]
  exact h.room

/-- One operation: both answer the same and go on side by side. -/
theorem step (operation : Operation f) (numeric : operation.Numeric)
    (h : Mirrors settings (pushes + if operation.isPush then 1 else 0) s a) :
    (s.apply operation).answer.map Answer.withoutHandle = (a.apply settings operation).answer ∧
      Mirrors settings pushes (s.apply operation).state (a.apply settings operation).state := by
  have sound := h.sound.apply operation
  cases operation with
  | push cell =>
    obtain ⟨l, hl, hcells⟩ := h.cells
    obtain ⟨cells, views, handle, hpush, _, _, hperm, hseq⟩ := push_spec h.sound cell
    -- the counter is below its limit, so that the new sequence number is above all others
    have hroom : s.cells.nextSeq + (pushes + 1) ≤ Counter.limit := h.room
    rw [Counter.raise_eq_add (by omega)] at hseq
    rw [Paired.apply, hpush, Step.map_done] at sound ⊢
    refine ⟨rfl, sound, h.rankings, h.turn, h.bound, ?_, _, hl.push hperm hseq, ?_⟩
    · show cells.nextSeq + pushes ≤ Counter.limit
      omega
    · show a.cells ++ [cell] = _
      rw [hcells, List.map_append]
      rfl
  | pop =>
    by_cases hnil : s.cells.pending = []
    · rw [Paired.apply, (next_of_nil h.sound hnil).1, Agenda.apply, h.next?_of_nil hnil]
      exact ⟨rfl, h⟩
    · obtain ⟨p, hp, _, hpop⟩ := pop_spec h.sound hnil
      obtain ⟨l, hl, hnext⟩ := h.next?_of_isNext hp
      rw [Paired.apply, hpop, Step.map_done] at sound ⊢
      rw [Agenda.apply, hnext]
      refine ⟨rfl, sound, h.rankings, ?_, h.bound, ?_, l, hl, rfl⟩
      · show s.turn.advance = Turn.advance^[a.pops + 1] _
        rw [h.turn, Function.iterate_succ_apply']
      · show (s.cells.erase p.handle).nextSeq + pushes ≤ Counter.limit
        rw [(CellStore.erase_spec h.sound.store p.handle).2.2]
        exact h.room
  | top =>
    by_cases hnil : s.cells.pending = []
    · rw [Paired.apply, (next_of_nil h.sound hnil).2, Agenda.apply, h.next?_of_nil hnil]
      exact ⟨rfl, h⟩
    · obtain ⟨p, hp, htop, _⟩ := pop_spec h.sound hnil
      obtain ⟨l, _, hnext⟩ := h.next?_of_isNext hp
      rw [Paired.apply, htop, Agenda.apply, hnext]
      exact ⟨rfl, h⟩
  | contract threshold =>
    obtain ⟨hcount, l, hl, hcells⟩ := h.contract threshold
    rw [Paired.apply, contract_eq, Step.map_done] at sound ⊢
    refine ⟨?_, sound, h.rankings, h.turn, h.bound, h.room_kept threshold, l, hl, hcells⟩
    rw [hcount]
    rfl
  | setBestBound bound =>
    obtain ⟨notices, hset⟩ := setBestBound_spec (s := s) (numeric)
    rw [Paired.apply, hset, Step.map_done] at sound ⊢
    exact ⟨rfl, sound, h.rankings, h.turn, rfl, h.room, h.cells⟩
  | updateBestBound bound =>
    obtain ⟨hcount, l, hl, hcells⟩ := h.contract bound
    obtain ⟨notices, hupdate⟩ := updateBestBound_spec (s := s) (numeric)
    rw [Paired.apply, hupdate, Step.map_done] at sound ⊢
    refine ⟨?_, sound, h.rankings, h.turn, rfl, h.room_kept bound, l, hl, hcells⟩
    rw [hcount]
    rfl
  | reorder =>
    rw [Paired.apply, reorder_eq, Step.map_done] at sound ⊢
    exact ⟨rfl, sound, h.rankings, h.turn, h.bound, h.room, h.cells⟩
  | flush =>
    -- the store goes on with its sequence numbers, and the turn stays where it is
    refine ⟨?_, sound, h.rankings, h.turn, h.bound, h.room, [], ?_, rfl⟩
    · show Except.ok (Answer.count s.size) = _
      rw [h.size]
      rfl
    · exact .of_pending_nil (CellStore.pending_clear s.cells)

end Mirrors

theorem mirrors_of_made {start : Paired f} (made : ofSettings? settings = .ok start)
    (few : pushes ≤ Counter.limit) : Mirrors settings pushes start (.ofSettings settings) where
  sound := sound_of_made made
  rankings := by rw [eq_of_made made]; rfl
  turn := by rw [eq_of_made made]; rfl
  bound := by rw [eq_of_made made]; rfl
  room := by
    rw [eq_of_made made]
    show 0 + pushes ≤ Counter.limit
    omega
  cells := by
    rw [eq_of_made made]
    exact ⟨[], .of_pending_nil rfl, rfl⟩

/-- Along every run with bounds that are numbers, and with fewer pushes than sequence numbers, the
frontier answers what the plain list answers: the same cells, errors and counts, and as many cells
are pending after each operation. -/
theorem answers_as_agenda {start : Paired f} (made : ofSettings? settings = .ok start)
    {operations : List (Operation f)} (numeric : ∀ operation ∈ operations, operation.Numeric)
    (few : operations.countP Operation.isPush < UInt64.size - 1) :
    ((runFrom apply start operations).map fun step =>
      (step.answer.map Answer.withoutHandle, step.state.size)) =
    (runFrom (Agenda.apply settings) (.ofSettings settings) operations).map fun step =>
      (step.answer, step.state.cells.length) := by
  refine (runFrom_agrees _ _ (R := Mirrors settings) (fun pushes s a operation hnumeric h => ?_)
    numeric (mirrors_of_made made (Nat.le_of_lt few))).1
  obtain ⟨hanswer, hnext⟩ := h.step operation hnumeric
  exact ⟨Prod.ext hanswer hnext.size, hnext⟩

/-- Three cells that come out under a quota, a new bound and a contraction. -/
theorem answers_as_agenda_three :
    let settings : Settings .binary64 := ⟨⟨.weight, .tightness⟩, .quota 1 2, .infinity⟩
    let start := ofSettings settings
    let operations : List (Operation .binary64) :=
      [.push (.ofRegion (.entire 1)), .push { Cell.ofRegion (.entire 2) with weight := .one },
        .setBestBound .one, .pop, .push (.ofRegion (.entire 3)), .contract .zero, .top, .pop,
        .updateBestBound .zero, .flush, .pop]
    ofSettings? settings = .ok start ∧ (∀ operation ∈ operations, operation.Numeric) ∧
      operations.countP Operation.isPush < UInt64.size - 1 ∧
      ((runFrom apply start operations).map fun step =>
        (step.answer.map Answer.withoutHandle, step.state.size)) =
      (runFrom (Agenda.apply settings) (.ofSettings settings) operations).map fun step =>
        (step.answer, step.state.cells.length) := by
  intro settings start operations
  have made : ofSettings? settings = .ok start := rfl
  have numeric : ∀ operation ∈ operations, operation.Numeric := by decide
  have few : operations.countP Operation.isPush < UInt64.size - 1 := by decide
  exact ⟨made, numeric, few, answers_as_agenda made numeric few⟩

end Paired

end BranchBound
