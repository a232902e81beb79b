/-
The check of a queue finds nothing exactly if the table tracks the entries and the entries are in
order (`violation?_eq_none_iff`). That every entry stands where the table says can be seen entry by
entry; that the table says nothing else is seen by counting, since the handles of the entries are
then among those that have a slot in the table, and they are all of them if they are as many.
-/
import BranchBound.Heap.Check
import BranchBound.Proofs.Heap.Sift
import Mathlib.Data.List.Nodup
import Mathlib.Data.List.Perm.Subperm

namespace BranchBound

namespace Heap

variable {f : Format} {q : Heap f}

/-- The bare handles that have a slot in a table. -/
def trackedBy (positions : Array (Option Nat)) : List Nat :=
  (positions.toList.zipIdx.filter fun place => place.1.isSome).map (·.2)

theorem mem_trackedBy_iff {positions : Array (Option Nat)} {h : CellHandle} :
    h.val ∈ trackedBy positions ↔ ∃ slot, positionIn positions h = some slot := by
  unfold trackedBy positionIn
  simp only [List.mem_map, List.mem_filter, Prod.exists, exists_eq_right]
  constructor
  · rintro ⟨place, hmem, hsome⟩
    obtain ⟨slot, rfl⟩ := Option.isSome_iff_exists.1 hsome
    rw [List.mem_zipIdx_iff_getElem?, Array.getElem?_toList] at hmem
    exact ⟨slot, by rw [hmem]; rfl⟩
  · rintro ⟨slot, hslot⟩
    refine ⟨some slot, ?_, rfl⟩
    rw [List.mem_zipIdx_iff_getElem?, Array.getElem?_toList]
    exact Option.join_eq_some_iff.1 hslot

theorem nodup_trackedBy (positions : Array (Option Nat)) : (trackedBy positions).Nodup := by
  have hall : (positions.toList.zipIdx.map (·.2)).Nodup := by
    rw [List.zipIdx_map_snd]
    exact List.nodup_range'
  exact hall.sublist (List.filter_sublist.map _)

theorem length_trackedBy (positions : Array (Option Nat)) :
    (trackedBy positions).length = positions.countP Option.isSome := by
  unfold trackedBy
  rw [List.length_map, ← List.countP_eq_length_filter, ← Array.countP_toList]
  conv_rhs => rw [← List.zipIdx_map_fst 0 positions.toList, List.countP_map]
  rfl

theorem Placed.nodup (p : q.Placed) : (q.handles.map Index.val).Nodup :=
  p.handles_nodup.map fun _ _ => Index.val_inj.1

theorem Placed.subset (p : q.Placed) : q.handles.map Index.val ⊆ trackedBy q.positions := by
  intro i hi
  obtain ⟨h, hh, rfl⟩ := List.mem_map.1 hi
  obtain ⟨e, he, rfl⟩ := List.mem_map.1 hh
  obtain ⟨slot, hslot⟩ := List.getElem?_of_mem he
  rw [Array.getElem?_toList] at hslot
  exact mem_trackedBy_iff.2 ⟨slot, p slot e hslot⟩

/-- A table tracks the entries if they stand where it says and it says as many slots. -/
theorem indexed_iff_placed :
    q.Indexed ↔ q.Placed ∧ q.positions.countP Option.isSome = q.entries.size := by
  have hlength : (q.handles.map Index.val).length = q.entries.size := by
    unfold handles
    rw [List.length_map, List.length_map, Array.length_toList]
  rw [← length_trackedBy, ← hlength]
  constructor
  · intro t
    refine ⟨t.placed, Nat.le_antisymm ?_ (t.placed.nodup.subperm t.placed.subset).length_le⟩
    refine ((nodup_trackedBy q.positions).subperm fun i hi => ?_).length_le
    obtain ⟨slot, hslot⟩ := mem_trackedBy_iff.1 (show (⟨i⟩ : CellHandle).val ∈ _ from hi)
    obtain ⟨e, he, heq⟩ := t.position?_eq_some_iff.1 hslot
    refine List.mem_map.2 ⟨⟨i⟩, List.mem_map.2 ⟨e, ?_, heq⟩, rfl⟩
    exact Array.mem_toList_iff.2 (Array.mem_of_getElem? he)
  · rintro ⟨placed, hcount⟩ h slot
    constructor
    · intro hslot
      -- no handle but those of the entries has a slot
      have hperm := (placed.nodup.subperm placed.subset).perm_of_length_le (Nat.le_of_eq hcount)
      have hmem := hperm.mem_iff.2 (mem_trackedBy_iff.2 ⟨slot, hslot⟩)
      obtain ⟨h', hh', hval⟩ := List.mem_map.1 hmem
      obtain ⟨e, he, rfl⟩ := List.mem_map.1 hh'
      obtain ⟨slot', hslot'⟩ := List.getElem?_of_mem he
      rw [Array.getElem?_toList] at hslot'
      have hplaced := placed slot' e hslot'
      rw [Index.val_inj.1 hval, hslot] at hplaced
      cases hplaced
      exact ⟨e, hslot', Index.val_inj.1 hval⟩
    · rintro ⟨e, he, rfl⟩
      exact placed slot e he

theorem violationAt?_eq_none_iff {e : HeapEntry f} {slot : Nat} :
    q.violationAt? e slot = none ↔ q.position? e.handle = some slot ∧
      (0 < slot → q.precedesAt slot (parent slot) = false) := by
  unfold violationAt?
  split
  · rename_i h
    simp [h]
  · rename_i h
    split
    · rename_i h'
      simp [h']
    · rename_i h'
      rw [not_and, Bool.not_eq_true] at h'
      simpa [Decidable.not_not.1 h] using h'

theorem violations_eq_none_iff :
    (q.entries.toList.zipIdx.findSome? fun (e, slot) => q.violationAt? e slot) = none ↔
      q.Placed ∧ q.Ordered := by
  rw [List.findSome?_eq_none_iff]
  simp only [Prod.forall, List.mem_zipIdx_iff_getElem?, Array.getElem?_toList,
    violationAt?_eq_none_iff]
  constructor
  · intro h
    refine ⟨fun slot e he => (h e slot he).1, fun slot hslot => ?_⟩
    rw [← Bool.not_eq_true]
    intro hp
    obtain ⟨e, _, he, _, _⟩ := precedesAt_iff.1 hp
    rw [(h e slot he).2 hslot] at hp
    cases hp
  · rintro ⟨placed, ordered⟩ e slot he
    exact ⟨placed slot e he, ordered slot⟩

/-- The check of a queue finds nothing exactly if its table and its order are right. -/
theorem violation?_eq_none_iff : q.violation? = none ↔ q.Indexed ∧ q.Ordered := by
  rw [indexed_iff_placed, and_right_comm, ← violations_eq_none_iff]
  unfold violation?
  split
  · rename_i h
    simp [h]
  · rename_i h
    simp [h]

end Heap

end BranchBound
