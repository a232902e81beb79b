/-
Sorting by pivots. The items that have to come out before a pivot go to the left and the others to
the right, in their order. After too many parts a list is sorted by runs instead.
-/
import BranchBound.Sorting.Runs

namespace BranchBound.Sorting

variable {α : Type} (less : α → α → Bool)

/-! ## The pivot -/

/-- That of three positions which is neither the first nor the last by `before`. -/
def median (before : Nat → Nat → Bool) (a b c : Nat) : Nat :=
  if before a b = before a c then (if before b c = before a b then b else c) else a

/-- The median of three positions, each of which is first replaced by a median near it while the
positions are wide apart. -/
def spreadMedian (before : Nat → Nat → Bool) (width a b c : Nat) : Nat :=
  if _h : 8 ≤ width then
    let near := fun p =>
      spreadMedian before (width / 8) p (p + width / 8 * 4) (p + width / 8 * 7)
    median before (near a) (near b) (near c)
  else median before a b c
termination_by width
decreasing_by omega

/-- The position of the pivot. -/
def pivotPosition (items : List α) : Nat :=
  let row := items.toArray
  let before := fun i j =>
    match row[i]?, row[j]? with
    | some x, some y => less x y
    | _, _ => false
  let width := row.size / 8
  spreadMedian before width 0 (width * 4) (width * 7)

/-- The items around a pivot in two parts by a choice; the pivot goes where it is told. -/
def part (choice : α → Bool) (withChosen : Bool) (before : List α) (pivot : α) (after : List α) :
    List α × List α :=
  let here := if withChosen then ([pivot], []) else ([], [pivot])
  (before.filter choice ++ here.1 ++ after.filter choice,
    before.filter (fun x => !choice x) ++ here.2 ++ after.filter fun x => !choice x)

theorem part_perm (choice : α → Bool) (withChosen : Bool) (before : List α) (pivot : α)
    (after : List α) :
    ((part choice withChosen before pivot after).1 ++
      (part choice withChosen before pivot after).2).Perm (before ++ pivot :: after) := by
  classical
  rw [List.perm_iff_count]
  intro x
  have hb := (List.filter_append_perm choice before).count_eq x
  have ha := (List.filter_append_perm choice after).count_eq x
  simp only [List.count_append] at hb ha
  cases withChosen <;>
    simp only [part, List.count_append, List.count_cons, List.count_nil, if_true, if_false,
      Bool.false_eq_true] <;>
    omega

/-! ## Sorting -/

/-- A list sorted by pivots, no more than `limit` of them one inside the other. None of the items
has to come out before `bound`; if the pivot does not have to come out behind it either, the items
like it are split off, since they are sorted. -/
def sortByPivots : Nat → Option α → List α → Except Fault (List α)
  | limit, bound, items =>
    if items.length ≤ shortLimit then sortShort less items
    else
      match limit, items.splitAt (pivotPosition less items) with
      | limit + 1, (before, pivot :: after) =>
        let parts := part (fun x => less x pivot) false before pivot after
        if bound.any (fun b => !less b pivot) || parts.1.isEmpty then do
          let parts := part (fun x => !less pivot x) true before pivot after
          return parts.1 ++ (← sortByPivots limit none parts.2)
        else do
          return (← sortByPivots limit bound parts.1)
            ++ (← sortByPivots limit (some pivot) parts.2)
      | _, _ => sortRuns less .ok true items

/-- A list of any length sorted by pivots. -/
def sortWhole (items : List α) : Except Fault (List α) :=
  sortByPivots less (2 * items.length.log2) none items

/-- The items sorted, those of which neither has to come first in the order in which they were. If
the relation is no order, this may be noticed; if it is not, they come out in an order that depends
on the way of sorting: by insertion if they are few, else by runs. -/
def sort (items : List α) : Except Fault (List α) :=
  if items.length ≤ 20 then .ok (insertion less items)
  else if items.length ≤ 2 * shortLimit then sortRuns less .ok true items
  else sortRuns less (sortWhole less) false items

theorem permutes_sortByPivots (limit : Nat) (bound : Option α) :
    Permutes (sortByPivots less limit bound) := by
  intro items sorted h
  induction limit generalizing bound items sorted with
  | zero =>
    unfold sortByPivots at h
    split at h
    · exact permutes_sortShort less h
    · exact permutes_sortRuns less permutes_ok true h
  | succ limit ih =>
    unfold sortByPivots at h
    split at h
    · exact permutes_sortShort less h
    · split at h
      · rename_i before pivot after hlimit hcut
        cases hlimit
        have hitems : before ++ pivot :: after = items := by
          rw [List.splitAt_eq] at hcut
          injection hcut with hbefore hafter
          rw [← hbefore, ← hafter, List.take_append_drop]
        have parts := fun choice withChosen => part_perm choice withChosen before pivot after
        rw [hitems] at parts
        simp only [bind, Except.bind, pure, Except.pure] at h
        split at h
        · split at h
          · cases h
          · rename_i rest hr
            cases h
            exact ((ih none hr).append_left _).trans (parts _ _)
        · split at h
          · cases h
          · rename_i left hl
            split at h
            · cases h
            · rename_i right hr
              cases h
              exact ((ih bound hl).append (ih (some pivot) hr)).trans (parts _ _)
      · exact permutes_sortRuns less permutes_ok true h

/-- What comes out are the items once more, whatever the relation. -/
theorem permutes_sort : Permutes (sort less) := by
  intro items sorted h
  unfold sort at h
  split at h
  · cases h
    exact insertion_perm less items
  · split at h
    · exact permutes_sortRuns less permutes_ok true h
    · exact permutes_sortRuns less (permutes_sortByPivots less _ _) false h

end BranchBound.Sorting
