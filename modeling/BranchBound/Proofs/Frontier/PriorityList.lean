/-
A frontier with one view does what a stable priority list would do. The list (`PriorityList`)
numbers the cells by their pushes, from the first push of the whole run on, and hands out the cell
of least cost at the best known bound, and of several the one of least number
(`PriorityList.next?_eq_some_iff`). Main statement (`Single.answers_as_priorityList`): along every
run both answer the same. So cells of equal cost come out in the order of their pushes, whatever
was flushed, discarded or ranked anew in between, and whatever handles the cells have.
-/
import BranchBound.Proofs.Frontier.PushOrder
import BranchBound.Proofs.Frontier.Single
import BranchBound.Proofs.Least

namespace BranchBound

variable {f : Format}

/-- A cell with the number of its push. -/
structure Numbered (f : Format) where
  number : Nat
  cell : Cell f

/-- Whether a cell has to come out before another one: by cost, and by the numbers of the pushes
where the costs are the same number. -/
def Numbered.precedes (ranking : Ranking) (bound : Binary f) (a b : Numbered f) : Bool :=
  let cost := fun cell => ranking.cost cell bound
  decide (cost a.cell < cost b.cell) ||
    ((cost a.cell).equals (cost b.cell) && decide (a.number < b.number))

/-- Queued under any handles the cells would have to come out in the same order. -/
theorem Numbered.precedes_eq (ranking : Ranking) (bound : Binary f) (a b : Numbered f)
    (handle handle' : CellHandle) :
    a.precedes ranking bound b =
      (HeapEntry.mk (ranking.cost a.cell bound) a.number handle).precedes
        ⟨ranking.cost b.cell bound, b.number, handle'⟩ := by
  obtain ⟨x, hx⟩ := Binary.exists_place (ranking.isNaN_cost a.cell bound)
  obtain ⟨y, hy⟩ := Binary.exists_place (ranking.isNaN_cost b.cell bound)
  rw [Bool.eq_iff_iff, HeapEntry.precedes_iff hx hy]
  unfold precedes Binary.equals
  rw [Bool.or_eq_true, Bool.and_eq_true, decide_eq_true_iff, decide_eq_true_iff,
    Binary.lt_iff_of_place hx hy, Binary.compare?_eq_some hx hy, beq_iff_eq, Option.some.injEq,
    Int.compare_eq_eq]

/-! ## The priority list -/

/-- The pending cells by the numbers of their pushes. -/
structure PriorityList (f : Format) where
  /-- The pending cells. -/
  rows : List (Numbered f)
  /-- The best known bound. -/
  bestBound : Binary f
  /-- The number of pushes so far. -/
  pushes : Nat

namespace PriorityList

/-- The list without cells. -/
def ofBound (bestBound : Binary f) : PriorityList f := ⟨[], bestBound, 0⟩

/-- The next cell and the rows without it. -/
def next? (ranking : Ranking) (a : PriorityList f) : Option (Numbered f × List (Numbered f)) :=
  takeLeast? (Numbered.precedes ranking a.bestBound) a.rows

theorem next?_eq_none_iff {ranking : Ranking} {a : PriorityList f} :
    a.next? ranking = none ↔ a.rows = [] :=
  takeLeast?_eq_none_iff

/-- No other cell has to come out before the next one. -/
theorem next?_eq_some_iff {ranking : Ranking} {a : PriorityList f} {row : Numbered f}
    {others : List (Numbered f)} :
    a.next? ranking = some (row, others) ↔
      ∃ before after, a.rows = before ++ row :: after ∧ others = before ++ after ∧
        (∀ b ∈ before, row.precedes ranking a.bestBound b = true) ∧
        ∀ b ∈ after, b.precedes ranking a.bestBound row = false := by
  have numeric (cell : Cell f) := ranking.isNaN_cost cell a.bestBound
  refine takeLeast?_eq_some_iff (fun b c h => ?_) fun b c d h => ?_
  · rw [Numbered.precedes_eq ranking _ _ _ ⟨0⟩ ⟨0⟩] at h ⊢
    exact HeapEntry.precedes_asymm (numeric b.cell) (numeric c.cell) h
  · rw [Numbered.precedes_eq ranking _ _ _ ⟨0⟩ ⟨0⟩] at h
    rw [Numbered.precedes_eq ranking _ b c ⟨0⟩ ⟨0⟩, Numbered.precedes_eq ranking _ c d ⟨0⟩ ⟨0⟩]
    exact HeapEntry.precedes_cotrans (numeric b.cell) (numeric c.cell) (numeric d.cell) h

/-- The cost of the next cell. -/
def topCost? (ranking : Ranking) (a : PriorityList f) : Option (Binary f) :=
  (a.next? ranking).map fun next => ranking.cost next.1.cell a.bestBound

/-- Deletes the cells that cannot be better than a threshold and answers how many there were. -/
def contract (ranking : Ranking) (a : PriorityList f) (threshold : Binary f) :
    Step (PriorityList f) f (Answer f) :=
  .done { a with rows := a.rows.filter fun row => !ranking.dominates row.cell threshold }
    (.count (a.rows.countP fun row => ranking.dominates row.cell threshold)) []

/-- One operation. A push answers no handle, since there are none. -/
def apply (ranking : Ranking) (a : PriorityList f) :
    Operation f → Step (PriorityList f) f (Answer f)
  | .push cell =>
    .done { a with rows := a.rows ++ [⟨a.pushes, cell⟩], pushes := a.pushes + 1 } .unit []
  | .pop =>
    match a.next? ranking with
    | none => .failed a .empty
    | some (row, others) => .done { a with rows := others } (.cell row.cell) []
  | .top =>
    match a.next? ranking with
    | none => .failed a .empty
    | some (row, _) => .done a (.cell row.cell) []
  | .contract threshold => a.contract ranking threshold
  | .setBestBound bound => .done { a with bestBound := bound } .unit []
  | .updateBestBound bound => { a with bestBound := bound }.contract ranking bound
  | .reorder => .done a .unit []
  | .flush => .done { a with rows := [] } (.count a.rows.length) []

end PriorityList

/-! ## The list beside the frontier -/

namespace Single

variable {ranking : Ranking} {pushes : Nat} {s : Single f} {a : PriorityList f}

/-- A pending cell with its sequence number. -/
def numbered (p : Pending f) : Numbered f := ⟨p.seq, p.cell⟩

/-- The list has the pending cells of a sound frontier under their sequence numbers and the same
bound, and the sequence numbers will last for so many pushes. -/
structure Mirrors (ranking : Ranking) (pushes : Nat) (s : Single f) (a : PriorityList f) :
    Prop where
  sound : s.Sound
  ranking : s.ranking = ranking
  bound : s.bestBound = a.bestBound
  seq : s.cells.nextSeq = a.pushes
  room : a.pushes + pushes ≤ Counter.limit
  rows : ∃ l, InPushOrder l s.cells ∧ a.rows = l.map numbered

namespace Mirrors

theorem size (h : Mirrors ranking pushes s a) : s.size = a.rows.length := by
  obtain ⟨l, hl, hrows⟩ := h.rows
  rw [hrows, List.length_map, hl.perm.length_eq]
  exact h.sound.store.size

theorem next?_of_nil (h : Mirrors ranking pushes s a) (hnil : s.cells.pending = []) :
    a.next? ranking = none := by
  obtain ⟨l, hl, hrows⟩ := h.rows
  rw [PriorityList.next?_eq_none_iff, hrows, hl.eq_nil_iff.2 hnil, List.map_nil]

/-- The frontier's next cell is that of the list. -/
theorem next?_of_isNext (h : Mirrors ranking pushes s a) {p : Pending f} (hp : s.IsNext p) :
    ∃ l, InPushOrder l (s.cells.erase p.handle) ∧
      a.next? ranking = some (numbered p, l.map numbered) := by
  obtain ⟨l, hl, hrows⟩ := h.rows
  obtain ⟨before, after, rfl, hfilter, hbefore, _⟩ := hl.split_next hp.1 hp.2
  obtain ⟨_, hpending, hseq⟩ := CellStore.erase_spec h.sound.store p.handle
  refine ⟨before ++ after, hfilter ▸ hl.filter hpending hseq, ?_⟩
  rw [h.ranking, h.bound] at hbefore
  rw [PriorityList.next?_eq_some_iff]
  refine ⟨before.map numbered, after.map numbered, ?_, List.map_append, ?_, ?_⟩
  · rw [hrows, List.map_append, List.map_cons]
  · intro b hb
    obtain ⟨p', hp', rfl⟩ := List.mem_map.1 hb
    unfold Numbered.precedes
    rw [Bool.or_eq_true, decide_eq_true_iff]
    exact .inl (hbefore p' hp').2
  · intro b hb
    obtain ⟨p', hp', rfl⟩ := List.mem_map.1 hb
    have hfirst := hp.2 p' (hl.perm.mem_iff.1 (by simp [hp']))
    rw [h.ranking, h.bound] at hfirst
    rw [Numbered.precedes_eq ranking _ _ _ p'.handle p.handle]
    exact hfirst

theorem topCost? (h : Mirrors ranking pushes s a) : s.topCost? = a.topCost? ranking := by
  unfold PriorityList.topCost?
  by_cases hnil : s.cells.pending = []
  · rw [(next_of_nil h.sound hnil).2.2, h.next?_of_nil hnil, Option.map_none]
  · obtain ⟨p, hp, _, hcost, _⟩ := pop_spec h.sound hnil
    obtain ⟨l, _, hnext⟩ := h.next?_of_isNext hp
    rw [hcost, hnext]
    unfold costOf
    rw [h.ranking, h.bound]
    rfl

/-- The frontier and the list delete the same cells. -/
theorem contract (h : Mirrors ranking pushes s a) (threshold : Binary f) :
    (s.discardCount threshold = a.rows.countP fun row => ranking.dominates row.cell threshold) ∧
      (s.kept threshold).nextSeq = a.pushes ∧
      ∃ l, InPushOrder l (s.kept threshold) ∧
        (a.rows.filter fun row => !ranking.dominates row.cell threshold) = l.map numbered := by
  obtain ⟨l, hl, hrows⟩ := h.rows
  obtain ⟨_, hpending, hseq⟩ := kept_spec h.sound.store threshold
  refine ⟨?_, hseq.trans h.seq, _, hl.filter hpending hseq, ?_⟩
  · unfold discardCount
    rw [hrows, List.countP_map, ← hl.perm.countP_eq, h.ranking]
    rfl
  · rw [hrows, List.filter_map, h.ranking]
    rfl

/-- One operation: both answer the same and go on side by side. -/
theorem step (operation : Operation f) (numeric : operation.Numeric)
    (h : Mirrors ranking (pushes + if operation.isPush then 1 else 0) s a) :
    (s.apply operation).answer.map Answer.withoutHandle = (a.apply ranking operation).answer ∧
      Mirrors ranking pushes (s.apply operation).state (a.apply ranking operation).state := by
  have sound := h.sound.apply operation
  cases operation with
  | push cell =>
    obtain ⟨l, hl, hrows⟩ := h.rows
    obtain ⟨cells, queue, handle, hpush, _, _, hperm, hseq⟩ := push_spec h.sound cell
    -- the counter is below its limit, so that the sequence number is the number of the push
    have hroom : a.pushes + (pushes + 1) ≤ Counter.limit := h.room
    rw [Counter.raise_eq_add (by rw [h.seq]; omega)] at hseq
    rw [Single.apply, hpush, Step.map_done] at sound ⊢
    refine ⟨rfl, sound, h.ranking, h.bound, ?_, ?_, _, hl.push hperm hseq, ?_⟩
    · show cells.nextSeq = a.pushes + 1
      rw [hseq, h.seq]
    · show a.pushes + 1 + pushes ≤ Counter.limit
      omega
    · show a.rows ++ [⟨a.pushes, cell⟩] = _
      rw [hrows, List.map_append, h.seq]
      rfl
  | pop =>
    by_cases hnil : s.cells.pending = []
    · rw [Single.apply, (next_of_nil h.sound hnil).1, PriorityList.apply, h.next?_of_nil hnil]
      exact ⟨rfl, h⟩
    · obtain ⟨p, hp, _, _, hpop⟩ := pop_spec h.sound hnil
      obtain ⟨l, hl, hnext⟩ := h.next?_of_isNext hp
      have hseq := (CellStore.erase_spec h.sound.store p.handle).2.2
      rw [Single.apply, hpop, Step.map_done] at sound ⊢
      rw [PriorityList.apply, hnext]
      exact ⟨rfl, sound, h.ranking, h.bound, hseq.trans h.seq, h.room, l, hl, rfl⟩
  | top =>
    by_cases hnil : s.cells.pending = []
    · rw [Single.apply, (next_of_nil h.sound hnil).2.1, PriorityList.apply, h.next?_of_nil hnil]
      exact ⟨rfl, h⟩
    · obtain ⟨p, hp, htop, _⟩ := pop_spec h.sound hnil
      obtain ⟨l, _, hnext⟩ := h.next?_of_isNext hp
      rw [Single.apply, htop, PriorityList.apply, hnext]
      exact ⟨rfl, h⟩
  | contract threshold =>
    obtain ⟨hcount, hseq, l, hl, hrows⟩ := h.contract threshold
    rw [Single.apply, contract_eq, Step.map_done] at sound ⊢
    refine ⟨?_, sound, h.ranking, h.bound, hseq, h.room, l, hl, hrows⟩
    rw [hcount]
    rfl
  | setBestBound bound =>
    obtain ⟨notices, hset⟩ := setBestBound_spec (s := s) numeric
    rw [Single.apply, hset, Step.map_done] at sound ⊢
    exact ⟨rfl, sound, h.ranking, rfl, h.seq, h.room, h.rows⟩
  | updateBestBound bound =>
    obtain ⟨hcount, hseq, l, hl, hrows⟩ := h.contract bound
    obtain ⟨notices, hupdate⟩ := updateBestBound_spec (s := s) numeric
    rw [Single.apply, hupdate, Step.map_done] at sound ⊢
    refine ⟨?_, sound, h.ranking, rfl, hseq, h.room, l, hl, hrows⟩
    rw [hcount]
    rfl
  | reorder =>
    rw [Single.apply, reorder_eq, Step.map_done] at sound ⊢
    exact ⟨rfl, sound, h.ranking, h.bound, h.seq, h.room, h.rows⟩
  | flush =>
    -- the numbers go on, in the list and in the store
    refine ⟨?_, sound, h.ranking, h.bound, h.seq, h.room, [], ?_, rfl⟩
    · show Except.ok (Answer.count s.size) = _
      rw [h.size]
      rfl
    · exact .of_pending_nil (CellStore.pending_clear s.cells)

end Mirrors

theorem mirrors_ofRanking (ranking : Ranking) (bestBound : Binary f)
    (few : pushes ≤ Counter.limit) :
    Mirrors ranking pushes (ofRanking ranking bestBound) (.ofBound bestBound) where
  sound := sound_ofRanking ranking bestBound
  ranking := rfl
  bound := rfl
  seq := rfl
  room := by
    show 0 + pushes ≤ Counter.limit
    omega
  rows := ⟨[], .of_pending_nil rfl, rfl⟩

/-- Along every run with bounds that are numbers, and with fewer pushes than sequence numbers, the
frontier answers what the priority list answers: the same cells, errors and counts, and as many
cells are pending after each operation. In the end the cost of the next cell is the same too, and
the check finds nothing. -/
theorem answers_as_priorityList (ranking : Ranking) (bestBound : Binary f)
    {operations : List (Operation f)} (numeric : ∀ operation ∈ operations, operation.Numeric)
    (few : operations.countP Operation.isPush < UInt64.size - 1) :
    ((runFrom apply (ofRanking ranking bestBound) operations).map fun step =>
      (step.answer.map Answer.withoutHandle, step.state.size)) =
    ((runFrom (PriorityList.apply ranking) (.ofBound bestBound) operations).map fun step =>
      (step.answer, step.state.rows.length)) ∧
    (stateAfter apply (ofRanking ranking bestBound) operations).topCost? =
      (stateAfter (PriorityList.apply ranking) (.ofBound bestBound) operations).topCost? ranking ∧
    (stateAfter apply (ofRanking ranking bestBound) operations).check = .ok () := by
  obtain ⟨hanswers, hend⟩ := runFrom_agrees (R := Mirrors ranking)
    (fun step => (step.answer.map Answer.withoutHandle, step.state.size))
    (fun step => (step.answer, step.state.rows.length))
    (fun pushes s a operation hnumeric h => by
      obtain ⟨hanswer, hnext⟩ := h.step operation hnumeric
      exact ⟨Prod.ext hanswer hnext.size, hnext⟩)
    numeric (mirrors_ofRanking ranking bestBound (Nat.le_of_lt few))
  exact ⟨hanswers, hend.topCost?, hend.sound.check⟩

/-- Cells of equal cost, zero and negative zero, pushed before and after a flush and a pop. -/
theorem answers_as_priorityList_ties :
    let start : Single .binary64 := ofRanking .weight .infinity
    let operations : List (Operation .binary64) :=
      [.push (.ofRegion (.entire 1)), .flush, .push (.ofRegion (.entire 2)),
        .push { Cell.ofRegion (.entire 3) with weight := .signedZero true }, .pop,
        .push (.ofRegion (.entire 4)), .setBestBound .one, .pop, .top]
    (∀ operation ∈ operations, operation.Numeric) ∧
      operations.countP Operation.isPush < UInt64.size - 1 ∧
      ((runFrom apply start operations).map fun step =>
        (step.answer.map Answer.withoutHandle, step.state.size)) =
      ((runFrom (PriorityList.apply .weight) (.ofBound .infinity) operations).map fun step =>
        (step.answer, step.state.rows.length)) ∧
      (stateAfter apply start operations).topCost? =
        (stateAfter (PriorityList.apply .weight) (.ofBound .infinity) operations).topCost? .weight ∧
      (stateAfter apply start operations).check = .ok () := by
  intro start operations
  have numeric : ∀ operation ∈ operations, operation.Numeric := by decide
  have few : operations.countP Operation.isPush < UInt64.size - 1 := by decide
  exact ⟨numeric, few, answers_as_priorityList .weight .infinity numeric few⟩

end Single

end BranchBound
