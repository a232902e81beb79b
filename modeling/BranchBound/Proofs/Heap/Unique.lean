/-
What a queue shows of its entries if no two of them have one sequence number. Then of two different
entries one precedes the other, so that there is one list in order (`Unique.sorted_eq`) and one front
(`Unique.peek?_eq`), whatever the slots in which the entries stand. For queues that rank pending
cells this says that the cells alone decide (`Ranks.peek?_eq`, `Ranks.sorted_eq`, `Ranks.cost?_alike`).
-/
import BranchBound.Proofs.Heap.Ranks
import Mathlib.Data.List.Sort

namespace BranchBound

namespace Sorting

variable {α : Type} {less : α → α → Bool}

/-- An item put into a list from the last to the first stands behind those that it has to come out
before. -/
theorem insertDescending_pairwise {P : α → Prop} {x : α} {sorted : List α}
    (asymm : ∀ a b, P a → P b → less a b = true → less b a = false)
    (cotrans : ∀ a b c, P a → P b → P c → less a c = true → less a b = true ∨ less b c = true)
    (hx : P x) (hP : ∀ a ∈ sorted, P a) (h : sorted.Pairwise fun a b => less a b = false) :
    (insertDescending less x sorted).Pairwise fun a b => less a b = false := by
  induction sorted with
  | nil => exact List.pairwise_singleton ..
  | cons last rest ih =>
    have hlast := hP last List.mem_cons_self
    have hrest : ∀ a ∈ rest, P a := fun a ha => hP a (List.mem_cons_of_mem _ ha)
    obtain ⟨hle, hsorted⟩ := List.pairwise_cons.1 h
    unfold insertDescending
    split
    · rename_i hless
      refine List.pairwise_cons.2 ⟨fun a ha => ?_, ih hrest hsorted⟩
      rcases List.mem_cons.1 ((insertDescending_perm less x rest).mem_iff.1 ha) with rfl | ha
      · exact asymm _ _ hx hlast hless
      · exact hle a ha
    · rename_i hless
      refine List.pairwise_cons.2 ⟨fun a ha => ?_, h⟩
      rcases List.mem_cons.1 ha with rfl | ha
      · exact Bool.eq_false_iff.2 hless
      · -- what has to come out after `x` has to come out after the last one, or the last one after `x`
        refine Bool.eq_false_iff.2 fun hxa => ?_
        rcases cotrans x last a hx hlast (hrest a ha) hxa with hxl | hla
        · exact hless hxl
        · exact Bool.eq_false_iff.1 (hle a ha) hla

theorem insertion_pairwise {P : α → Prop} {items : List α}
    (asymm : ∀ a b, P a → P b → less a b = true → less b a = false)
    (cotrans : ∀ a b c, P a → P b → P c → less a c = true → less a b = true ∨ less b c = true)
    (hP : ∀ a ∈ items, P a) : (insertion less items).Pairwise fun a b => less b a = false := by
  have hall : ∀ (items sorted : List α), (∀ a ∈ items, P a) → (∀ a ∈ sorted, P a) →
      (sorted.Pairwise fun a b => less a b = false) →
      (insertAll less sorted items).Pairwise fun a b => less a b = false := by
    intro items
    induction items with
    | nil => exact fun sorted _ _ h => h
    | cons x rest ih =>
      intro sorted hitems hsorted h
      have hx := hitems x List.mem_cons_self
      refine ih _ (fun a ha => hitems a (List.mem_cons_of_mem _ ha)) (fun a ha => ?_)
        (insertDescending_pairwise asymm cotrans hx hsorted h)
      rcases List.mem_cons.1 ((insertDescending_perm less x sorted).mem_iff.1 ha) with rfl | ha
      · exact hx
      · exact hsorted a ha
  exact List.pairwise_reverse.2 (hall items [] hP nofun .nil)

end Sorting

namespace Heap

variable {f : Format}

/-- The costs of the entries are numbers, and no two entries have one sequence number. -/
structure Unique (entries : List (HeapEntry f)) : Prop where
  numeric : ∀ e ∈ entries, e.cost.isNaN = false
  nodup : (entries.map (·.seq)).Nodup

namespace Unique

variable {entries : List (HeapEntry f)} {e e' : HeapEntry f} {q q' : Heap f}

theorem perm (u : Unique entries) {entries' : List (HeapEntry f)} (h : entries'.Perm entries) :
    Unique entries' where
  numeric e he := u.numeric e (h.mem_iff.1 he)
  nodup := (h.map (·.seq)).nodup_iff.2 u.nodup

/-- Two entries of which none precedes the other are one. -/
theorem eq_of_not_precedes (u : Unique entries) (he : e ∈ entries) (he' : e' ∈ entries)
    (h : e.precedes e' = false) (h' : e'.precedes e = false) : e = e' := by
  obtain ⟨x, hx⟩ := Binary.exists_place (u.numeric e he)
  obtain ⟨y, hy⟩ := Binary.exists_place (u.numeric e' he')
  refine List.inj_on_of_nodup_map u.nodup he he' ?_
  rw [← Bool.not_eq_true, HeapEntry.precedes_iff hx hy] at h
  rw [← Bool.not_eq_true, HeapEntry.precedes_iff hy hx] at h'
  omega

/-- The sorted entries are in order. -/
theorem sorted_pairwise (u : Unique q.entries.toList) :
    q.sorted.Pairwise fun a b => b.precedes a = false :=
  Sorting.insertion_pairwise (P := fun e : HeapEntry f => e.cost.isNaN = false)
    (fun _ _ ha hb => HeapEntry.precedes_asymm ha hb)
    (fun _ _ _ ha hb hc => HeapEntry.precedes_cotrans ha hb hc) u.numeric

theorem sorted_eq (u : Unique q.entries.toList) (h : q'.entries.toList.Perm q.entries.toList) :
    q'.sorted = q.sorted := by
  have hperm := Sorting.insertion_perm HeapEntry.precedes q.entries.toList
  have hperm' := (Sorting.insertion_perm HeapEntry.precedes q'.entries.toList).trans h
  refine List.Perm.eq_of_pairwise (fun a b ha hb hab hba => ?_) (u.perm h).sorted_pairwise
    u.sorted_pairwise (hperm'.trans hperm.symm)
  exact u.eq_of_not_precedes (hperm'.mem_iff.1 ha) (hperm.mem_iff.1 hb) hba hab

end Unique

namespace Ranks

variable {ranking : Ranking} {bound : Binary f} {cells : List (Pending f)} {q q' : Heap f}

theorem unique (h : q.Ranks ranking bound cells) (distinct : (cells.map (·.seq)).Nodup) :
    Unique q.entries.toList := by
  have hcells : Unique (cells.map (·.entry ranking bound)) := by
    refine ⟨fun e he => ?_, ?_⟩
    · obtain ⟨p, _, rfl⟩ := List.mem_map.1 he
      exact ranking.isNaN_cost p.cell bound
    · rw [List.map_map]
      exact distinct
  exact hcells.perm h.entries

/-- The cells in order do not depend on the slots in which they stand. -/
theorem sorted_eq (h : q.Ranks ranking bound cells) (h' : q'.Ranks ranking bound cells)
    (distinct : (cells.map (·.seq)).Nodup) : q'.sorted = q.sorted :=
  (h.unique distinct).sorted_eq (h'.entries.trans h.entries.symm)

theorem peek?_eq (h : q.Ranks ranking bound cells) (h' : q'.Ranks ranking bound cells)
    (distinct : (cells.map (·.seq)).Nodup) : q'.peek? = q.peek? := by
  cases he : q.peek? with
  | none => exact h'.peek?_eq_none_iff.2 (h.peek?_eq_none_iff.1 he)
  | some e =>
    cases he' : q'.peek? with
    | none =>
      rw [h.peek?_eq_none_iff.2 (h'.peek?_eq_none_iff.1 he')] at he
      cases he
    | some e' =>
      obtain ⟨p, hp, rfl, hfirst⟩ := h.front he
      obtain ⟨p', hp', rfl, hfirst'⟩ := h'.front he'
      have hmem := h.mem_entries_iff.2 ⟨p, hp, rfl⟩
      have hmem' := h.mem_entries_iff.2 ⟨p', hp', rfl⟩
      -- each is at the front of its queue
      exact congrArg some ((h.unique distinct).eq_of_not_precedes hmem' hmem (hfirst p' hp')
        (hfirst' p hp))

theorem cost?_alike (h : q.Ranks ranking bound cells) (h' : q'.Ranks ranking bound cells)
    (handle : CellHandle) : q'.cost? handle = q.cost? handle := by
  by_cases hcell : ∃ p ∈ cells, p.handle = handle
  · obtain ⟨p, hp, rfl⟩ := hcell
    rw [h.cost?_eq hp, h'.cost?_eq hp]
  · have hn : ∀ p ∈ cells, p.handle ≠ handle := fun p hp heq => hcell ⟨p, hp, heq⟩
    rw [h.cost?_eq_none hn, h'.cost?_eq_none hn]

end Ranks

end Heap

end BranchBound
