/-
Sorting by insertion. Every item is put behind those before it that it does not have to come out
before. The relation need not be an order: what comes out is in any case the items once more.
-/
namespace BranchBound.Sorting

variable {α : Type} (less : α → α → Bool)

/-- Puts an item into a list that runs from the last to the first, behind the items that it has to
come out before. -/
def insertDescending (x : α) : List α → List α
  | [] => [x]
  | last :: rest => if less x last then last :: insertDescending x rest else x :: last :: rest

/-- Puts items one after the other into a list that runs from the last to the first. -/
def insertAll (sorted items : List α) : List α :=
  items.foldl (fun sorted x => insertDescending less x sorted) sorted

/-- The items sorted, those of which neither has to come first in the order in which they were. -/
def insertion (items : List α) : List α := (insertAll less [] items).reverse

theorem insertDescending_perm (x : α) (sorted : List α) :
    (insertDescending less x sorted).Perm (x :: sorted) := by
  induction sorted with
  | nil => exact .refl _
  | cons last rest ih =>
    unfold insertDescending
    split
    · exact (ih.cons last).trans (.swap x last rest)
    · exact .refl _

theorem insertAll_perm (sorted items : List α) :
    (insertAll less sorted items).Perm (sorted ++ items) := by
  induction items generalizing sorted with
  | nil => simp [insertAll]
  | cons x rest ih =>
    refine (ih (insertDescending less x sorted)).trans ?_
    refine ((insertDescending_perm less x sorted).append_right rest).trans ?_
    exact List.perm_middle.symm

theorem insertion_perm (items : List α) : (insertion less items).Perm items :=
  (List.reverse_perm _).trans (insertAll_perm less [] items)

end BranchBound.Sorting
