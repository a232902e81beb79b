/-
Sorting by runs. A list is cut into runs, and a run is merged with its neighbours. The place between
two runs is a node of a balanced tree over all positions, and the deepest nodes are merged first. A
run that is in order as it stands is kept if it is long enough; where there is none, a short piece
is sorted, or it is left until a longer piece can be sorted at once.
-/
import BranchBound.Sorting.Short

namespace BranchBound.Sorting

variable {α : Type} (less : α → α → Bool)

/-! ## Runs -/

/-- A piece of a list. -/
structure Run (α : Type) where
  items : List α
  sorted : Bool

/-- How many items follow an item without falling. -/
def rising (x : α) : List α → Nat
  | [] => 0
  | y :: rest => if less y x then 0 else rising y rest + 1

/-- How many items follow an item and fall, each one. -/
def falling (x : α) : List α → Nat
  | [] => 0
  | y :: rest => if less y x then falling y rest + 1 else 0

/-- The length of the run at the front, and whether it falls. -/
def naturalRun : List α → Nat × Bool
  | x :: y :: rest =>
    if less y x then (falling less y rest + 2, true) else (rising less y rest + 2, false)
  | items => (items.length, false)

/-- How long a run has to be to be kept: half as long as the list, but no longer than 64, or for a
very long list about the root of its length. -/
def keptLength (length : Nat) : Nat :=
  if length ≤ 64 * 64 then min (length - length / 2) 64
  else
    let shift := (1 + length.log2) / 2
    ((1 <<< shift) + (length >>> shift)) / 2

/-- The run at the front of a list, and what is behind it. An eager run is sorted in any case. -/
def firstRun (eager : Bool) (kept : Nat) (items : List α) : Except Fault (Run α × List α) :=
  let natural := naturalRun less items
  if kept ≤ natural.1 then
    let run := items.take natural.1
    .ok (⟨if natural.2 then run.reverse else run, true⟩, items.drop natural.1)
  else if eager then
    (sortShort less (items.take shortLimit)).map fun run => (⟨run, true⟩, items.drop shortLimit)
  else .ok (⟨items.take kept, false⟩, items.drop kept)

/-- The runs of a list, no more than a number given and the rest. -/
def runs (eager : Bool) (kept : Nat) : Nat → List α → Except Fault (List (Run α))
  | 0, items => .ok [⟨items, false⟩]
  | count + 1, items =>
    if items.isEmpty then .ok []
    else do
      let first ← firstRun less eager kept items
      return first.1 :: (← runs eager kept count first.2)

theorem firstRun_perm {eager : Bool} {kept : Nat} {items : List α} {cut : Run α × List α}
    (h : firstRun less eager kept items = .ok cut) : (cut.1.items ++ cut.2).Perm items := by
  have whole := fun n => List.take_append_drop n items
  unfold firstRun at h
  simp only at h
  split at h
  · cases h
    refine List.Perm.trans (.append_right _ ?_) (.of_eq (whole (naturalRun less items).1))
    split
    · exact List.reverse_perm _
    · exact .refl _
  · split at h
    · match hs : sortShort less (items.take shortLimit), h with
      | .ok sorted, h =>
        cases h
        exact ((permutes_sortShort less hs).append_right _).trans (.of_eq (whole shortLimit))
    · cases h
      exact .of_eq (whole kept)

/-- What the runs hold, one behind the other. -/
theorem runs_perm {eager : Bool} {kept count : Nat} {items : List α} {cut : List (Run α)}
    (h : runs less eager kept count items = .ok cut) : (cut.flatMap Run.items).Perm items := by
  induction count generalizing items cut with
  | zero =>
    cases h
    simp
  | succ count ih =>
    unfold runs at h
    split at h
    · rename_i empty
      cases h
      rw [List.isEmpty_iff.1 empty]
      exact .refl _
    · match hf : firstRun less eager kept items, h with
      | .ok (first, behind), h =>
        simp only [bind, Except.bind, pure, Except.pure] at h
        split at h
        · cases h
        · rename_i rest hr
          cases h
          rw [List.flatMap_cons]
          exact ((ih hr).append_left _).trans (firstRun_perm less hf)

/-! ## The tree -/

/-- The depth of the node between two neighbouring pieces in a balanced tree over so many
positions: how many leading binary digits the middles of the pieces have in common. -/
def nodeDepth (length start middle stop : Nat) : Nat :=
  let unit := (UInt64.size / 4 + length - 1) / length
  let differing := unit * (start + middle) ^^^ unit * (middle + stop)
  if differing = 0 then 64 else 63 - differing.log2

variable (whole : List α → Except Fault (List α))

/-- The items of a run in order; where no run has sorted them, `whole` does. -/
def Run.settled (run : Run α) : Except Fault (List α) :=
  if run.sorted then .ok run.items else whole run.items

/-- Two neighbouring runs as one. Two runs of which none is sorted are sorted later. -/
def join (left right : Run α) : Except Fault (Run α) :=
  if left.sorted || right.sorted then do
    return ⟨merge less (← left.settled whole) (← right.settled whole), true⟩
  else .ok ⟨left.items ++ right.items, false⟩

/-- Joins a run with those to its left, the nearest first, whose nodes are not above a depth. -/
def joinBelow (depth : Nat) : List (Nat × Run α) → Run α → Except Fault (List (Nat × Run α) × Run α)
  | [], run => .ok ([], run)
  | left :: rest, run =>
    if depth ≤ left.1 then do joinBelow depth rest (← join less whole left.2 run)
    else .ok (left :: rest, run)

/-- Joins the runs of a list of that length: those to the left with the depths of their nodes, the
run that stops at a position, and those to the right. -/
def joinAll (length : Nat) :
    List (Nat × Run α) → Run α → Nat → List (Run α) → Except Fault (Run α)
  | lefts, run, _, [] => return (← joinBelow less whole 0 lefts run).2
  | lefts, run, stop, next :: rest => do
    let stop' := stop + next.items.length
    let depth := nodeDepth length (stop - run.items.length) stop stop'
    let joined ← joinBelow less whole depth lefts run
    joinAll length ((depth, joined.2) :: joined.1) next stop' rest

/-- A list sorted by its runs, where `whole` sorts what no run has sorted. -/
def sortRuns (eager : Bool) (items : List α) : Except Fault (List α) := do
  match ← runs less eager (keptLength items.length) items.length items with
  | [] => return []
  | first :: rest =>
    (← joinAll less whole items.length [] first first.items.length rest).settled whole

variable {whole}

theorem Run.settled_perm (hwhole : Permutes whole) {run : Run α} {sorted : List α}
    (h : run.settled whole = .ok sorted) : sorted.Perm run.items := by
  unfold Run.settled at h
  split at h
  · cases h
    exact .refl _
  · exact hwhole h

theorem join_perm (hwhole : Permutes whole) {left right joined : Run α}
    (h : join less whole left right = .ok joined) :
    joined.items.Perm (left.items ++ right.items) := by
  unfold join at h
  split at h
  · match hl : left.settled whole, h with
    | .ok l, h =>
      match hr : right.settled whole, h with
      | .ok r, h =>
        simp only [bind, Except.bind, pure, Except.pure] at h
        cases h
        exact (merge_perm less l r).trans
          ((Run.settled_perm hwhole hl).append (Run.settled_perm hwhole hr))
  · cases h
    exact .refl _

theorem joinBelow_perm (hwhole : Permutes whole) {depth : Nat} {lefts : List (Nat × Run α)}
    {run : Run α} {joined : List (Nat × Run α) × Run α}
    (h : joinBelow less whole depth lefts run = .ok joined) :
    (joined.2.items ++ joined.1.flatMap fun left => left.2.items).Perm
      (run.items ++ lefts.flatMap fun left => left.2.items) := by
  induction lefts generalizing run with
  | nil =>
    cases h
    exact .refl _
  | cons left rest ih =>
    unfold joinBelow at h
    split at h
    · match hj : join less whole left.2 run, h with
      | .ok both, h =>
        refine (ih h).trans ?_
        rw [List.flatMap_cons, ← List.append_assoc]
        exact ((join_perm less hwhole hj).trans List.perm_append_comm).append_right _
    · cases h
      exact .refl _

/-- No node is above the top, so at the end nothing is left to join. -/
theorem joinBelow_zero {lefts : List (Nat × Run α)} {run : Run α}
    {joined : List (Nat × Run α) × Run α} (h : joinBelow less whole 0 lefts run = .ok joined) :
    joined.1 = [] := by
  induction lefts generalizing run with
  | nil =>
    cases h
    rfl
  | cons left rest ih =>
    unfold joinBelow at h
    simp only [Nat.zero_le, if_true, bind, Except.bind] at h
    split at h
    · cases h
    · exact ih h

theorem joinAll_perm (hwhole : Permutes whole) {length stop : Nat} {lefts : List (Nat × Run α)}
    {run joined : Run α} {rights : List (Run α)}
    (h : joinAll less whole length lefts run stop rights = .ok joined) :
    joined.items.Perm
      (run.items ++ lefts.flatMap (fun left => left.2.items) ++ rights.flatMap Run.items) := by
  induction rights generalizing lefts run stop with
  | nil =>
    unfold joinAll at h
    simp only [bind, Except.bind, pure, Except.pure] at h
    split at h
    · cases h
    · rename_i below hb
      cases h
      have hperm := joinBelow_perm less hwhole hb
      rw [joinBelow_zero less hb] at hperm
      simpa using hperm
  | cons next rest ih =>
    unfold joinAll at h
    simp only [bind, Except.bind] at h
    split at h
    · cases h
    · rename_i below hb
      refine (ih h).trans ?_
      have hperm := joinBelow_perm less hwhole hb
      rw [List.flatMap_cons, List.flatMap_cons, ← List.append_assoc _ next.items]
      exact (List.perm_append_comm.trans (hperm.append_right _)).append_right _

theorem permutes_sortRuns (hwhole : Permutes whole) (eager : Bool) :
    Permutes (sortRuns less whole eager) := by
  intro items sorted h
  unfold sortRuns at h
  simp only [bind, Except.bind, pure, Except.pure] at h
  split at h
  · cases h
  · rename_i cut hr
    refine List.Perm.trans ?_ (runs_perm less hr)
    split at h
    · cases h
      exact .refl _
    · split at h
      · cases h
      · rename_i joined hj
        have hperm := joinAll_perm less hwhole hj
        rw [List.flatMap_nil, List.append_nil] at hperm
        exact (Run.settled_perm hwhole h).trans hperm

end BranchBound.Sorting
