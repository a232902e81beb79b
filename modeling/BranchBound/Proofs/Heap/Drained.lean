/-
Popping a queue until it is empty. If no two entries have one sequence number, the handles come out
in the order of the sorted entries (`drained_eq`), which is the only order in which none precedes one
before it (`Unique.sorted_of_pairwise`). So a queue of some of the entries gives out their handles as
the queue of all of them would, without the others (`Unique.sorted_filter`, `drained_erase`).
-/
import BranchBound.Proofs.Heap.Unique

namespace BranchBound.Heap

variable {f : Format} {q q' : Heap f}

theorem sorted_perm (q : Heap f) : q.sorted.Perm q.entries.toList :=
  Sorting.insertion_perm HeapEntry.precedes q.entries.toList

namespace Unique

variable {entries : List (HeapEntry f)}

theorem filter (u : Unique entries) (P : HeapEntry f → Bool) : Unique (entries.filter P) where
  numeric e he := u.numeric e (List.mem_of_mem_filter he)
  nodup := u.nodup.sublist (List.filter_sublist.map HeapEntry.seq)

theorem tail (u : Unique entries) {e : HeapEntry f} {rest : List (HeapEntry f)}
    (hperm : (e :: rest).Perm entries) : Unique rest where
  numeric e' he' := u.numeric e' (hperm.subset (List.mem_cons_of_mem _ he'))
  nodup := (List.nodup_cons.1 ((hperm.map HeapEntry.seq).nodup_iff.2 u.nodup)).2

/-- The entries in order are the sorted ones. -/
theorem sorted_of_pairwise (u : Unique q.entries.toList) {l : List (HeapEntry f)}
    (hperm : l.Perm q.entries.toList) (hl : l.Pairwise fun a b => b.precedes a = false) :
    q.sorted = l := by
  refine List.Perm.eq_of_pairwise (fun a b ha hb hab hba => ?_) u.sorted_pairwise hl
    (q.sorted_perm.trans hperm.symm)
  exact u.eq_of_not_precedes (q.sorted_perm.mem_iff.1 ha) (hperm.mem_iff.1 hb) hba hab

/-- A queue of some of the entries has them in the same order. -/
theorem sorted_filter (u : Unique q.entries.toList) {P : HeapEntry f → Bool}
    (hperm : q'.entries.toList.Perm (q.entries.toList.filter P)) :
    q'.sorted = q.sorted.filter P :=
  ((u.filter P).perm hperm).sorted_of_pairwise ((q.sorted_perm.filter P).trans hperm.symm)
    (u.sorted_pairwise.filter P)

end Unique

/-- The front comes before the sorted rest of the queue. -/
theorem sorted_of_peek? (s : q.Sound) (u : Unique q.entries.toList) {e : HeapEntry f}
    (he : q.peek? = some e) : q.sorted = e :: q.pop.sorted := by
  have hperm : (e :: q.pop.entries.toList).Perm q.entries.toList := (removeAt_spec s he).2
  refine u.sorted_of_pairwise ((q.pop.sorted_perm.cons e).trans hperm) (List.pairwise_cons.2
    ⟨fun e' he' => ?_, (u.tail hperm).sorted_pairwise⟩)
  have hmem := q.pop.sorted_perm.mem_iff.1 he'
  exact (s.peek?_first he).2 e' (hperm.subset (List.mem_cons_of_mem _ hmem))

/-- Popped until it is empty, a queue gives its handles out in order. -/
theorem drained_eq (s : q.Sound) (u : Unique q.entries.toList) {limit : Nat}
    (hlimit : q.size ≤ limit) : q.drained limit = q.sorted.map (·.handle) := by
  induction limit generalizing q with
  | zero =>
    have hnil : q.sorted = [] := by
      rw [← List.length_eq_zero_iff, q.sorted_perm.length_eq, Array.length_toList]
      exact Nat.le_zero.1 hlimit
    rw [hnil]
    rfl
  | succ limit ih =>
    unfold drained
    cases he : q.peek? with
    | none =>
      have hnil : q.sorted = [] :=
        List.perm_nil.1 (peek?_eq_none_iff.1 he ▸ q.sorted_perm)
      rw [hnil]
      rfl
    | some e =>
      obtain ⟨s', hperm⟩ := removeAt_spec s he
      have hsize : q.pop.size ≤ limit := by
        have hlength := hperm.length_eq
        rw [List.length_cons, Array.length_toList, Array.length_toList] at hlength
        exact Nat.le_of_succ_le_succ (hlength.trans_le hlimit)
      rw [sorted_of_peek? s u he, List.map_cons]
      exact congrArg (List.cons _) (ih s' (u.tail hperm) hsize)

/-- Without a handle the others come out as they would have. -/
theorem drained_erase (s : q.Sound) (u : Unique q.entries.toList) (h : CellHandle) {limit : Nat}
    (hlimit : q.size ≤ limit) :
    (q.erase h).drained limit = (q.drained limit).filter fun h' => h' ≠ h := by
  obtain ⟨s', hperm⟩ := erase_spec s h
  have hsize : (q.erase h).size ≤ q.size := by
    have hlength := hperm.length_eq.trans_le (List.length_filter_le ..)
    rwa [Array.length_toList, Array.length_toList] at hlength
  rw [drained_eq s u hlimit, drained_eq s' ((u.filter _).perm hperm) (hsize.trans hlimit),
    u.sorted_filter hperm, List.filter_map]
  rfl

end BranchBound.Heap
