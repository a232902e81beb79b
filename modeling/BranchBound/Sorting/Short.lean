/-
Sorting a short list. Each half is sorted by insertion, and the halves are merged from both sides.
-/
import BranchBound.Sorting.Merge

namespace BranchBound.Sorting

variable {α : Type} (less : α → α → Bool)

def shortLimit : Nat := 32

/-- One half of a short list sorted by insertion, the first four items at once if the other half
has four too. -/
def sortHalf (four : Bool) (items : List α) : List α :=
  match four, items with
  | true, a :: b :: c :: d :: rest => (insertAll less (sortFour less a b c d).reverse rest).reverse
  | _, items => insertion less items

/-- A short list sorted: its halves are merged from both sides. -/
def sortShort (items : List α) : Except Fault (List α) :=
  if items.length < 2 then .ok items
  else
    let half := items.length / 2
    let four := decide (8 ≤ items.length)
    mergeMeeting less (sortHalf less four (items.take half)) (sortHalf less four (items.drop half))

theorem sortHalf_perm (four : Bool) (items : List α) : (sortHalf less four items).Perm items := by
  unfold sortHalf
  split
  · refine (List.reverse_perm _).trans ((insertAll_perm less _ _).trans ?_)
    exact ((List.reverse_perm _).trans (sortFour_perm less ..)).append_right _
  · exact insertion_perm less items

theorem permutes_sortShort : Permutes (sortShort less) := by
  intro items sorted h
  unfold sortShort at h
  split at h
  · cases h
    exact .refl _
  · refine (mergeMeeting_perm less ?_ h).trans ?_
    · rw [(sortHalf_perm less _ _).length_eq, (sortHalf_perm less _ _).length_eq, List.length_take,
        List.length_drop]
      omega
    · conv => rhs; rw [← List.take_append_drop (items.length / 2) items]
      exact (sortHalf_perm less _ _).append (sortHalf_perm less _ _)

end BranchBound.Sorting
