/-
What intervals contain. Numbers and intervals inside an interval are known by its bounds (`contains_iff`,
`containsInterval_iff`), so an interval with its bounds in order contains both of them, and one around such
an interval has its bounds in order too (`valid_of_containsInterval`).
-/
import BranchBound.Interval
import BranchBound.Proofs.Binary.Order

namespace BranchBound.Interval

variable {f : Format} {a a' b : Interval f} {x : Binary f}

theorem contains_iff : a.contains x = true ↔ a.lb ≤ x ∧ x ≤ a.ub := by
  simp [contains]

theorem containsInterval_iff : a.containsInterval b = true ↔ a.lb ≤ b.lb ∧ b.ub ≤ a.ub := by
  simp [containsInterval]

theorem Valid.contains_lb (ha : a.Valid) : a.contains a.lb = true :=
  contains_iff.2 ⟨Binary.le_refl (Binary.isNaN_of_le ha).1, ha⟩

theorem Valid.contains_ub (ha : a.Valid) : a.contains a.ub = true :=
  contains_iff.2 ⟨ha, Binary.le_refl (Binary.isNaN_of_le ha).2⟩

theorem valid_of_contains (hx : a.contains x = true) : a.Valid := by
  obtain ⟨hlb, hub⟩ := contains_iff.1 hx
  exact Binary.le_trans hlb hub

theorem isNaN_of_contains (hx : a.contains x = true) : x.isNaN = false :=
  (Binary.isNaN_of_le (contains_iff.1 hx).1).2

theorem contains_of_containsInterval (h : a'.containsInterval a = true) (hx : a.contains x = true) :
    a'.contains x = true := by
  obtain ⟨hlb, hub⟩ := containsInterval_iff.1 h
  obtain ⟨hlb', hub'⟩ := contains_iff.1 hx
  exact contains_iff.2 ⟨Binary.le_trans hlb hlb', Binary.le_trans hub' hub⟩

theorem containsInterval_of_contains (hlb : a'.contains a.lb = true) (hub : a'.contains a.ub = true) :
    a'.containsInterval a = true :=
  containsInterval_iff.2 ⟨(contains_iff.1 hlb).1, (contains_iff.1 hub).2⟩

theorem valid_of_containsInterval (ha : a.Valid) (h : a'.containsInterval a = true) : a'.Valid :=
  valid_of_contains (contains_of_containsInterval h ha.contains_lb)

end BranchBound.Interval
