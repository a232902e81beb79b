/-
Precedence between queued entries whose costs are numbers: the lexicographic order by cost and
sequence number. Main statements: of two entries at most one precedes the other
(`precedes_asymm`), and an entry that precedes another one precedes or follows any third
(`precedes_cotrans`). So not to precede is transitive, which is all that a heap asks of its order.
-/
import BranchBound.Heap.Basic
import BranchBound.Proofs.Binary.Order

namespace BranchBound

namespace HeapEntry

variable {f : Format} {a b c : HeapEntry f}

/-- Entries with numbers for costs precede each other by cost, then by sequence number. -/
theorem precedes_iff {x y : Int} (ha : a.cost.place = some x) (hb : b.cost.place = some y) :
    a.precedes b = true ↔ x < y ∨ (x = y ∧ a.seq < b.seq) := by
  unfold precedes
  rw [Binary.compare?_eq_some ha hb]
  rcases Int.lt_trichotomy x y with h | h | h
  · rw [Int.compare_eq_lt.2 h]
    simp [h]
  · rw [Int.compare_eq_eq.2 h]
    simp only [decide_eq_true_eq]
    omega
  · rw [Int.compare_eq_gt.2 h]
    simp only [Bool.false_eq_true, false_iff]
    omega

theorem precedes_irrefl (a : HeapEntry f) : a.precedes a = false := by
  unfold precedes
  cases ha : a.cost.place with
  | none => simp [Binary.compare?, ha]
  | some x =>
    rw [Binary.compare?_eq_some ha ha, Int.compare_eq_eq.2 rfl]
    simp

theorem precedes_asymm (ha : a.cost.isNaN = false) (hb : b.cost.isNaN = false)
    (h : a.precedes b = true) : b.precedes a = false := by
  obtain ⟨x, hx⟩ := Binary.exists_place ha
  obtain ⟨y, hy⟩ := Binary.exists_place hb
  rw [precedes_iff hx hy] at h
  rw [← Bool.not_eq_true, precedes_iff hy hx]
  omega

theorem precedes_cotrans (ha : a.cost.isNaN = false) (hb : b.cost.isNaN = false)
    (hc : c.cost.isNaN = false) (h : a.precedes c = true) :
    a.precedes b = true ∨ b.precedes c = true := by
  obtain ⟨x, hx⟩ := Binary.exists_place ha
  obtain ⟨y, hy⟩ := Binary.exists_place hb
  obtain ⟨z, hz⟩ := Binary.exists_place hc
  rw [precedes_iff hx hz] at h
  rw [precedes_iff hx hy, precedes_iff hy hz]
  omega

end HeapEntry

end BranchBound
