/-
Queues that rank pending cells. A queue ranks some cells if it is sound and its entries are those
of the cells: each with its handle, its sequence number and its cost at the best known bound, each
once. What a frontier does to its queues is told here in cells: a cell comes in (`Ranks.push`),
goes out (`Ranks.erase`), or all are ranked anew (`anew_spec`), and the front is a cell that
no other has to come out before (`Ranks.front`).
-/
import BranchBound.Proofs.CellStore
import BranchBound.Proofs.Heap.Changes
import BranchBound.Ranking

namespace BranchBound

variable {f : Format} {ranking : Ranking} {bound : Binary f} {cells : List (Pending f)}

/-- What a queue holds of a pending cell. -/
def Pending.entry (ranking : Ranking) (bound : Binary f) (p : Pending f) : HeapEntry f :=
  ⟨ranking.cost p.cell bound, p.seq, p.handle⟩

/-- Cells come out by cost, and by sequence number where neither costs less. -/
theorem Pending.precedes_iff {p p' : Pending f} :
    (p.entry ranking bound).precedes (p'.entry ranking bound) = true ↔
      ranking.cost p.cell bound < ranking.cost p'.cell bound ∨
        (¬ ranking.cost p'.cell bound < ranking.cost p.cell bound ∧ p.seq < p'.seq) := by
  obtain ⟨x, hx⟩ := Binary.exists_place (ranking.isNaN_cost p.cell bound)
  obtain ⟨y, hy⟩ := Binary.exists_place (ranking.isNaN_cost p'.cell bound)
  rw [HeapEntry.precedes_iff hx hy, Binary.lt_iff_of_place hx hy, Binary.lt_iff_of_place hy hx]
  show x < y ∨ (x = y ∧ p.seq < p'.seq) ↔ _
  omega

namespace Heap

variable {q : Heap f}

/-- The queue is sound and holds the entries of the cells, each once. -/
structure Ranks (q : Heap f) (ranking : Ranking) (bound : Binary f) (cells : List (Pending f)) :
    Prop where
  sound : q.Sound
  entries : q.entries.toList.Perm (cells.map (·.entry ranking bound))

theorem ranks_empty (ranking : Ranking) (bound : Binary f) : (empty : Heap f).Ranks ranking bound [] :=
  ⟨sound_empty, .nil⟩

/-- The queue of some cells that are ranked anew. -/
def anew (ranking : Ranking) (bound : Binary f) (cells : List (Pending f)) : Heap f :=
  match ofEntries (cells.map (·.entry ranking bound)) with
  | .ok q => q
  | .error _ => empty

/-- Cells with different handles can be ranked anew, whatever was queued before. -/
theorem anew_spec (ranking : Ranking) (bound : Binary f) (nodup : (cells.map (·.handle)).Nodup) :
    ofEntries (cells.map (·.entry ranking bound)) = .ok (anew ranking bound cells) ∧
      (anew ranking bound cells).Ranks ranking bound cells := by
  have hnodup : ((cells.map (·.entry ranking bound)).map (·.handle)).Nodup := by
    rw [List.map_map]
    exact nodup
  obtain ⟨q, hok, sound, hperm⟩ := ofEntries_spec hnodup (by
    intro e he
    obtain ⟨p, _, rfl⟩ := List.mem_map.1 he
    exact ranking.isNaN_cost p.cell bound)
  have hanew : anew ranking bound cells = q := by
    unfold anew
    rw [hok]
  rw [hanew]
  exact ⟨hok, sound, hperm⟩

namespace Ranks

theorem congr {cells' : List (Pending f)} (h : q.Ranks ranking bound cells)
    (hperm : cells.Perm cells') : q.Ranks ranking bound cells' :=
  ⟨h.sound, h.entries.trans (hperm.map _)⟩

/-- A ranking that does not look at the best known bound need not rank anew when it changes. -/
theorem rebound (h : q.Ranks ranking bound cells) (hr : ranking.dependsOnBound = false)
    (bound' : Binary f) : q.Ranks ranking bound' cells := by
  have hentry : (fun p : Pending f => p.entry ranking bound) = fun p => p.entry ranking bound' := by
    funext p
    unfold Pending.entry
    rw [Ranking.cost_eq_of_independent hr p.cell bound bound']
  exact ⟨h.sound, hentry ▸ h.entries⟩

theorem size (h : q.Ranks ranking bound cells) : q.size = cells.length := by
  unfold Heap.size
  rw [← Array.length_toList, h.entries.length_eq, List.length_map]

theorem handles (h : q.Ranks ranking bound cells) : q.handles.Perm (cells.map (·.handle)) := by
  have := h.entries.map HeapEntry.handle
  rwa [List.map_map] at this

theorem contains_iff (h : q.Ranks ranking bound cells) {handle : CellHandle} :
    q.contains handle = true ↔ ∃ p ∈ cells, p.handle = handle := by
  rw [← h.sound.indexed.mem_handles_iff, h.handles.mem_iff, List.mem_map]

/-- No queued handle is found that is unknown where those of the cells are known. -/
theorem find?_unknown (h : q.Ranks ranking bound cells) {known : CellHandle → Bool}
    (hknown : ∀ p ∈ cells, known p.handle = true) :
    (q.handles.find? fun handle => !known handle) = none := by
  rw [List.find?_eq_none]
  intro handle hhandle
  obtain ⟨p, hp, rfl⟩ := List.mem_map.1 (h.handles.mem_iff.1 hhandle)
  rw [hknown p hp]
  exact Bool.false_ne_true

theorem mem_entries_iff (h : q.Ranks ranking bound cells) {e : HeapEntry f} :
    e ∈ q.entries.toList ↔ ∃ p ∈ cells, p.entry ranking bound = e := by
  rw [h.entries.mem_iff, List.mem_map]

/-- The cost recorded for a queued cell is its cost at the best known bound. -/
theorem cost?_eq (h : q.Ranks ranking bound cells) {p : Pending f} (hp : p ∈ cells) :
    q.cost? p.handle = some (ranking.cost p.cell bound) :=
  h.sound.indexed.cost?_of_mem (h.mem_entries_iff.2 ⟨p, hp, rfl⟩)

theorem cost?_eq_none (h : q.Ranks ranking bound cells) {handle : CellHandle}
    (hn : ∀ p ∈ cells, p.handle ≠ handle) : q.cost? handle = none := by
  refine Indexed.cost?_eq_none ?_
  rw [← Bool.not_eq_true, h.contains_iff]
  rintro ⟨p, hp, heq⟩
  exact hn p hp heq

/-! ## Changing -/

theorem push (h : q.Ranks ranking bound cells) {p : Pending f}
    (fresh : ∀ p' ∈ cells, p'.handle ≠ p.handle) :
    ∃ q', q.push (p.entry ranking bound) = .ok q' ∧ q'.Ranks ranking bound (p :: cells) := by
  have hcontains : q.contains (p.entry ranking bound).handle = false := by
    rw [← Bool.not_eq_true, h.contains_iff]
    rintro ⟨p', hp', heq⟩
    exact fresh p' hp' heq
  obtain ⟨q', hok, sound, hperm⟩ := push_spec h.sound hcontains (ranking.isNaN_cost p.cell bound)
  exact ⟨q', hok, sound, hperm.trans (h.entries.cons _)⟩

theorem erase (h : q.Ranks ranking bound cells) (handle : CellHandle) :
    (q.erase handle).Ranks ranking bound (cells.filter fun p => p.handle ≠ handle) := by
  obtain ⟨sound, hperm⟩ := erase_spec h.sound handle
  refine ⟨sound, hperm.trans ((h.entries.filter _).trans ?_)⟩
  rw [List.filter_map]
  exact .refl _

/-! ## The front -/

theorem peek?_eq_none_iff (h : q.Ranks ranking bound cells) : q.peek? = none ↔ cells = [] := by
  rw [Heap.peek?_eq_none_iff]
  constructor
  · intro hnil
    have := h.entries.length_eq
    rwa [hnil, List.length_map, List.length_nil, eq_comm, List.length_eq_zero_iff] at this
  · rintro rfl
    exact List.perm_nil.1 h.entries

theorem exists_front (h : q.Ranks ranking bound cells) (hne : cells ≠ []) :
    ∃ e, q.peek? = some e := by
  rw [← Option.ne_none_iff_exists']
  exact fun hnone => hne (h.peek?_eq_none_iff.1 hnone)

/-- At the front stands a cell that no other one has to come out before. -/
theorem front (h : q.Ranks ranking bound cells) {e : HeapEntry f} (he : q.peek? = some e) :
    ∃ p ∈ cells, p.entry ranking bound = e ∧
      ∀ p' ∈ cells, (p'.entry ranking bound).precedes e = false := by
  obtain ⟨hmem, hfirst⟩ := h.sound.peek?_first he
  obtain ⟨p, hp, heq⟩ := h.mem_entries_iff.1 hmem
  exact ⟨p, hp, heq, fun p' hp' => hfirst _ (h.mem_entries_iff.2 ⟨p', hp', rfl⟩)⟩

end Ranks

end Heap

end BranchBound
