/-
The table of positions. A table tracks the entries of a queue if it tells for every handle the slot
where an entry with that handle stands, and tells no slot for a handle that no entry has. Then no
two entries have one handle (`Indexed.handles_nodup`). Three changes of the entries with the table
keep this: an entry put into an empty slot, two slots exchanged, and an entry taken out
(`Tracks.insert`, `Tracks.swap`, `Tracks.erase`). All that a queue does to its entries is made of
them.
-/
import BranchBound.Heap.Basic
import Mathlib.Logic.Equiv.Basic

namespace BranchBound

namespace Heap

variable {f : Format} {positions : Array (Option Nat)} {entries : Array (HeapEntry f)}

/-! ## Reading a table after writing it -/

theorem positionIn_setIfInBounds {h : CellHandle} (hb : h.val < positions.size) (slot : Option Nat)
    (h' : CellHandle) :
    positionIn (positions.setIfInBounds h.val slot) h' =
      if h' = h then slot else positionIn positions h' := by
  unfold positionIn
  rw [Array.getElem?_setIfInBounds]
  by_cases e : h' = h
  · subst e
    rw [if_pos rfl, if_pos rfl, if_pos hb]
    rfl
  · rw [if_neg fun e' => e (Index.val_inj.1 e'.symm), if_neg e]

theorem positionIn_record (positions : Array (Option Nat)) (h : CellHandle) (slot : Nat)
    (h' : CellHandle) :
    positionIn (record positions h slot) h' =
      if h' = h then some slot else positionIn positions h' := by
  unfold record
  split
  · rename_i hb
    exact positionIn_setIfInBounds hb (some slot) h'
  · rename_i hb
    unfold positionIn
    rw [Array.getElem?_push, Array.getElem?_append]
    simp only [Array.size_append, Array.size_replicate, Array.getElem?_replicate]
    by_cases e : h' = h
    · subst e
      rw [if_pos (by omega), if_pos rfl]
      rfl
    · have hne : h'.val ≠ h.val := fun e' => e (Index.val_inj.1 e')
      rw [if_neg (by omega), if_neg e]
      split
      · rfl
      · rw [Array.getElem?_eq_none (by omega)]
        split <;> rfl

/-! ## Tables that track entries -/

/-- The slots told for handles are those where entries with the handles stand. -/
def Tracks (slotOf : CellHandle → Option Nat) (entryAt : Nat → Option (HeapEntry f)) : Prop :=
  ∀ h slot, slotOf h = some slot ↔ ∃ e, entryAt slot = some e ∧ e.handle = h

/-- The table of a queue tells for every queued handle its slot, and nothing else. -/
def Indexed (q : Heap f) : Prop := Tracks q.position? fun slot => q.entries[slot]?

/-- Every entry stands where the table says. -/
def Placed (q : Heap f) : Prop :=
  ∀ slot e, q.entries[slot]? = some e → q.position? e.handle = some slot

/-- Entries that stand where the table says have different handles. -/
theorem Placed.handles_nodup {q : Heap f} (p : q.Placed) : q.handles.Nodup := by
  unfold handles
  rw [List.nodup_iff_pairwise_ne, List.pairwise_map, List.pairwise_iff_getElem]
  intro i j hi hj hij heq
  have ha := p i q.entries.toList[i] (by rw [← Array.getElem?_toList, List.getElem?_eq_getElem hi])
  have hb := p j q.entries.toList[j] (by rw [← Array.getElem?_toList, List.getElem?_eq_getElem hj])
  rw [heq, hb] at ha
  cases ha
  exact Nat.lt_irrefl _ hij

namespace Tracks

variable {slotOf : CellHandle → Option Nat} {entryAt : Nat → Option (HeapEntry f)}

theorem slot (t : Tracks slotOf entryAt) {i : Nat} {e : HeapEntry f} (h : entryAt i = some e) :
    slotOf e.handle = some i :=
  (t e.handle i).2 ⟨e, h, rfl⟩

/-- No two slots have entries with one handle. -/
theorem slot_eq (t : Tracks slotOf entryAt) {i j : Nat} {a b : HeapEntry f}
    (ha : entryAt i = some a) (hb : entryAt j = some b) (h : a.handle = b.handle) : i = j := by
  have hi := t.slot ha
  rw [h, t.slot hb] at hi
  exact (Option.some.inj hi).symm

/-- A new entry in a slot that was empty. -/
theorem insert (t : Tracks slotOf entryAt) {e : HeapEntry f} {i : Nat}
    (hslot : slotOf e.handle = none) (hentry : entryAt i = none) :
    Tracks (fun h => if h = e.handle then some i else slotOf h)
      (fun k => if k = i then some e else entryAt k) := by
  intro h slot
  by_cases hh : h = e.handle
  · subst hh
    simp only [if_pos]
    constructor
    · intro hs
      cases hs
      exact ⟨e, if_pos rfl, rfl⟩
    · rintro ⟨e', he', heq⟩
      split at he'
      · rename_i hi
        rw [hi]
      · rw [← heq, t.slot he'] at hslot
        cases hslot
  · simp only [if_neg hh]
    rw [t h slot]
    constructor
    · rintro ⟨e', he', rfl⟩
      refine ⟨e', ?_, rfl⟩
      rw [if_neg]
      · exact he'
      · rintro rfl
        rw [hentry] at he'
        cases he'
    · rintro ⟨e', he', rfl⟩
      split at he'
      · cases he'
        exact absurd rfl hh
      · exact ⟨e', he', rfl⟩

/-- Two slots with their entries exchanged. -/
theorem swap (t : Tracks slotOf entryAt) (i j : Nat) :
    Tracks (fun h => (slotOf h).map (Equiv.swap i j)) (fun k => entryAt (Equiv.swap i j k)) := by
  intro h slot
  rw [← t h (Equiv.swap i j slot)]
  show (slotOf h).map (Equiv.swap i j) = some slot ↔ _
  cases slotOf h with
  | none => simp
  | some k => simp [Equiv.swap_apply_eq_iff]

/-- An entry taken out of its slot. -/
theorem erase (t : Tracks slotOf entryAt) {e : HeapEntry f} {i : Nat} (he : entryAt i = some e) :
    Tracks (fun h => if h = e.handle then none else slotOf h)
      (fun k => if k = i then none else entryAt k) := by
  intro h slot
  by_cases hh : h = e.handle
  · subst hh
    simp only [if_pos]
    constructor
    · intro hs
      cases hs
    · rintro ⟨e', he', heq⟩
      split at he'
      · cases he'
      · rename_i hne
        exact absurd (t.slot_eq he' he heq) hne
  · simp only [if_neg hh]
    rw [t h slot]
    constructor
    · rintro ⟨e', he', rfl⟩
      refine ⟨e', ?_, rfl⟩
      rw [if_neg]
      · exact he'
      · rintro rfl
        rw [he] at he'
        cases he'
        exact hh rfl
    · rintro ⟨e', he', rfl⟩
      split at he'
      · cases he'
      · exact ⟨e', he', rfl⟩

end Tracks

namespace Indexed

variable {q : Heap f}

theorem position?_eq_some_iff (t : q.Indexed) {h : CellHandle} {slot : Nat} :
    q.position? h = some slot ↔ ∃ e, q.entries[slot]? = some e ∧ e.handle = h :=
  t h slot

/-- A queued handle has a place in the table. -/
theorem lt_size (t : q.Indexed) {slot : Nat} {e : HeapEntry f} (h : q.entries[slot]? = some e) :
    e.handle.val < q.positions.size := by
  have hp : positionIn q.positions e.handle = some slot := t.slot h
  unfold positionIn at hp
  apply Nat.lt_of_not_le
  intro hle
  rw [Array.getElem?_eq_none hle] at hp
  cases hp

theorem placed (t : q.Indexed) : q.Placed := fun _ _ he => t.slot he

/-- No handle is queued twice. -/
theorem handles_nodup (t : q.Indexed) : q.handles.Nodup := t.placed.handles_nodup

theorem mem_handles_iff (t : q.Indexed) (h : CellHandle) :
    h ∈ q.handles ↔ q.contains h = true := by
  unfold handles contains
  rw [List.mem_map, Option.isSome_iff_exists]
  constructor
  · rintro ⟨e, he, rfl⟩
    obtain ⟨slot, hslot⟩ := List.getElem?_of_mem he
    exact ⟨slot, t.slot (by rw [← Array.getElem?_toList]; exact hslot)⟩
  · rintro ⟨slot, hslot⟩
    obtain ⟨e, he, heq⟩ := (t h slot).1 hslot
    exact ⟨e, Array.mem_toList_iff.2 (Array.mem_of_getElem? he), heq⟩

/-- The cost of a queued entry is the one recorded for its handle. -/
theorem cost?_of_mem (t : q.Indexed) {e : HeapEntry f} (he : e ∈ q.entries.toList) :
    q.cost? e.handle = some e.cost := by
  obtain ⟨slot, hslot⟩ := List.getElem?_of_mem he
  rw [Array.getElem?_toList] at hslot
  unfold cost?
  rw [t.slot hslot]
  show (q.entries[slot]?.bind fun e => some e.cost) = _
  rw [hslot]
  rfl

/-- For a handle that is not queued no cost is recorded. -/
theorem cost?_eq_none {q : Heap f} {h : CellHandle} (hcontains : q.contains h = false) :
    q.cost? h = none := by
  unfold contains at hcontains
  unfold cost?
  rw [Option.not_isSome_iff_eq_none.1 (Bool.eq_false_iff.1 hcontains)]
  rfl

end Indexed

end Heap

end BranchBound
