/-
Merging two sorted lists. They may be merged from their fronts, from their ends, or from both sides
at once. The last way notices if the two sides take an item twice or leave one out, which happens
only if the relation is no order.
-/
import BranchBound.Sorting.Insertion

namespace BranchBound.Sorting

variable {α : Type} (less : α → α → Bool)

/-- Why a list is not sorted. -/
inductive Fault where
  /-- The relation has contradicted itself, so it is no order. -/
  | disorder
  deriving DecidableEq

def Fault.message : Fault → String
  | disorder => "user-provided comparison function does not correctly implement a total order"

/-- Sorting that changes nothing but the order. -/
def Permutes (sorting : List α → Except Fault (List α)) : Prop :=
  ∀ {items sorted}, sorting items = .ok sorted → sorted.Perm items

theorem permutes_ok : Permutes (Except.ok : List α → Except Fault (List α)) := by
  intro items sorted h
  cases h
  exact .refl _

/-! ## From one side -/

/-- Two sorted lists as one, merged from the side of the shorter one. Where neither of two items
has to come first, that of the first list does. -/
def merge (xs ys : List α) : List α :=
  if xs.length ≤ ys.length then xs.merge ys fun x y => !less y x
  else (ys.reverse.merge xs.reverse fun y x => !less y x).reverse

theorem merge_perm (xs ys : List α) : (merge less xs ys).Perm (xs ++ ys) := by
  unfold merge
  split
  · exact List.merge_perm_append _
  · refine (List.reverse_perm _).trans ((List.merge_perm_append _).trans ?_)
    exact ((List.reverse_perm ys).append (List.reverse_perm xs)).trans List.perm_append_comm

/-! ## From both sides -/

/-- Takes so many items from the fronts of two lists, each time from the second one if `second`
says so, and counts those from the first. -/
def takeFronts (second : α → α → Bool) : Nat → List α → List α → List α × Nat
  | count + 1, x :: xs, y :: ys =>
    if second x y then
      let rest := takeFronts second count (x :: xs) ys
      (y :: rest.1, rest.2)
    else
      let rest := takeFronts second count xs (y :: ys)
      (x :: rest.1, rest.2 + 1)
  | _, _, _ => ([], 0)

/-- What is taken is a piece of each list. -/
theorem takeFronts_perm (second : α → α → Bool) (count : Nat) (xs ys : List α)
    (hx : count ≤ xs.length) (hy : count ≤ ys.length) :
    (takeFronts second count xs ys).2 ≤ count ∧
      (takeFronts second count xs ys).1.Perm
        (xs.take (takeFronts second count xs ys).2 ++
          ys.take (count - (takeFronts second count xs ys).2)) := by
  induction count generalizing xs ys with
  | zero => simp [takeFronts]
  | succ count ih =>
    match xs, ys with
    | x :: xs, y :: ys =>
      simp only [List.length_cons, Nat.add_le_add_iff_right] at hx hy
      unfold takeFronts
      split
      · obtain ⟨hle, hperm⟩ := ih (x :: xs) ys (Nat.le_succ_of_le hx) hy
        refine ⟨Nat.le_succ_of_le hle, ?_⟩
        rw [Nat.succ_sub hle, List.take_succ_cons]
        exact (hperm.cons y).trans List.perm_middle.symm
      · obtain ⟨hle, hperm⟩ := ih xs (y :: ys) hx (Nat.le_succ_of_le hy)
        refine ⟨Nat.succ_le_succ hle, ?_⟩
        rw [Nat.add_sub_add_right, List.take_succ_cons]
        exact hperm.cons x

/-- Two sorted lists as one, the second of which has as many items as the first or one more. From
the front and from the end as many items are taken as the first list has; the two sides have to
meet. -/
def mergeMeeting (xs ys : List α) : Except Fault (List α) :=
  let front := takeFronts (fun x y => less y x) xs.length xs ys
  let back := takeFronts (fun y x => less y x) xs.length ys.reverse xs.reverse
  if front.2 ≤ back.2 ∧ xs.length - front.2 ≤ ys.length - back.2 then
    .ok (front.1 ++ (xs.take back.2).drop front.2
      ++ (ys.take (ys.length - back.2)).drop (xs.length - front.2) ++ back.1.reverse)
  else .error .disorder

/-- A list is what lies before a place, between two places and behind them. -/
theorem take_drop_append (xs : List α) {i j : Nat} (h : i ≤ j) :
    xs.take i ++ ((xs.take j).drop i ++ xs.drop j) = xs := by
  rw [← List.append_assoc]
  have := List.take_append_drop i (xs.take j)
  rw [List.take_take, Nat.min_eq_left h] at this
  rw [this, List.take_append_drop]

/-- Where the two sides meet, every item is taken once. -/
theorem mergeMeeting_perm {xs ys zs : List α} (hlen : xs.length ≤ ys.length)
    (h : mergeMeeting less xs ys = .ok zs) : zs.Perm (xs ++ ys) := by
  obtain ⟨hf, front⟩ := takeFronts_perm (fun x y => less y x) xs.length xs ys (Nat.le_refl _) hlen
  obtain ⟨hb, back⟩ := takeFronts_perm (fun y x => less y x) xs.length ys.reverse xs.reverse
    (by rwa [List.length_reverse]) (Nat.le_of_eq List.length_reverse.symm)
  unfold mergeMeeting at h
  simp only at h
  generalize takeFronts (fun x y => less y x) xs.length xs ys = F at *
  generalize takeFronts (fun y x => less y x) xs.length ys.reverse xs.reverse = B at *
  split at h
  · rename_i meet
    cases h
    rw [List.take_reverse, List.take_reverse, Nat.sub_sub_self hb] at back
    have left := take_drop_append xs meet.1
    have right := take_drop_append ys meet.2
    have hback : B.1.reverse.Perm (ys.drop (ys.length - B.2) ++ xs.drop B.2) :=
      (List.reverse_perm _).trans (back.trans ((List.reverse_perm _).append (List.reverse_perm _)))
    conv => rhs; rw [← left, ← right]
    generalize (xs.take B.2).drop F.2 = midLeft
    generalize (ys.take (ys.length - B.2)).drop (xs.length - F.2) = midRight
    classical
    rw [List.perm_iff_count] at front hback ⊢
    intro x
    have hx := front x
    have hy := hback x
    simp only [List.count_append] at hx hy ⊢
    omega
  · cases h

/-! ## Two and four items -/

def sortTwo (x y : α) : List α := if less y x then [y, x] else [x, y]

/-- Four items sorted: two pairs, then the first and the last of all, then the two between. -/
def sortFour (a b c d : α) : List α :=
  let p := if less b a then (b, a) else (a, b)
  let q := if less d c then (d, c) else (c, d)
  match less q.1 p.1, less q.2 p.2 with
  | false, false => p.1 :: sortTwo less p.2 q.1 ++ [q.2]
  | false, true => p.1 :: sortTwo less q.1 q.2 ++ [p.2]
  | true, false => q.1 :: sortTwo less p.1 p.2 ++ [q.2]
  | true, true => q.1 :: sortTwo less p.1 q.2 ++ [p.2]

theorem sortTwo_perm (x y : α) : (sortTwo less x y).Perm [x, y] := by
  unfold sortTwo
  split
  · exact .swap x y []
  · exact .refl _

theorem sortFour_perm (a b c d : α) : (sortFour less a b c d).Perm [a, b, c, d] := by
  classical
  rw [List.perm_iff_count]
  intro x
  have two := fun u v => (sortTwo_perm less u v).count_eq x
  unfold sortFour
  simp only
  split <;> split <;> split <;>
    (simp only [List.cons_append, List.count_cons, List.count_append, two, List.count_nil]; omega)

end BranchBound.Sorting
