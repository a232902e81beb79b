/-
What the changes of a queue do to its entries. A queue is sound if its table tracks its entries,
the entries are in order and their costs are numbers. A sound queue stays sound, and as a
collection its entries are those before with one more (`push_spec`), with the one of a slot less
(`removeAt_spec`) or with that of a handle less (`erase_spec`); a queue of given entries has these
(`ofEntries_spec`). No change can fail but by a handle that is queued twice.
-/
import BranchBound.Proofs.Heap.Sift
import Mathlib.Data.List.Perm.Basic

namespace BranchBound

namespace Heap

variable {f : Format} {q : Heap f}

/-- What holds of a queue between its changes. -/
structure Sound (q : Heap f) : Prop where
  indexed : q.Indexed
  ordered : q.Ordered
  numeric : q.Numeric

theorem sound_empty : (empty : Heap f).Sound where
  indexed := by
    intro h slot
    simp [empty, position?, positionIn]
  ordered := by
    intro i _
    simp [empty, precedesAt]
  numeric := by
    intro e he
    cases he

theorem contains_eq_false_iff (t : q.Indexed) {h : CellHandle} :
    q.contains h = false ↔ ∀ e ∈ q.entries.toList, e.handle ≠ h := by
  rw [← Bool.not_eq_true, ← t.mem_handles_iff, handles, List.mem_map]
  constructor
  · intro hn e he heq
    exact hn ⟨e, he, heq⟩
  · rintro hn ⟨e, he, heq⟩
    exact hn e he heq

/-- Slots that two queues fill alike have the same precedence. -/
theorem precedesAt_congr {q' : Heap f} {i j : Nat} (hi : q'.entries[i]? = q.entries[i]?)
    (hj : q'.entries[j]? = q.entries[j]?) : q'.precedesAt i j = q.precedesAt i j := by
  unfold precedesAt
  rw [hi, hj]

/-! ## Queueing -/

/-- The queue with an entry behind the others, before it rises. -/
def appended (q : Heap f) (e : HeapEntry f) : Heap f :=
  ⟨q.entries.push e, record q.positions e.handle q.entries.size⟩

theorem push_eq {e : HeapEntry f} (h : q.contains e.handle = false) :
    q.push e = .ok ((q.appended e).siftUp q.entries.size) := by
  unfold push
  rw [h]
  rfl

theorem getElem?_appended (e : HeapEntry f) (k : Nat) :
    (q.appended e).entries[k]? = if k = q.entries.size then some e else q.entries[k]? :=
  Array.getElem?_push

theorem Indexed.appended (t : q.Indexed) {e : HeapEntry f} (h : q.contains e.handle = false) :
    (q.appended e).Indexed := by
  have hslot : q.position? e.handle = none := by
    unfold contains at h
    simpa using h
  have hentry : q.entries[q.entries.size]? = none := Array.getElem?_eq_none (Nat.le_refl _)
  unfold Indexed
  rw [show (q.appended e).position? = _ from funext (positionIn_record _ _ _),
    show (fun slot => (q.appended e).entries[slot]?) = _ from funext (getElem?_appended e)]
  exact t.insert hslot hentry

theorem Ordered.appended (o : q.Ordered) (e : HeapEntry f) :
    (q.appended e).OrderedAround 0 q.entries.size ∧
      (q.appended e).SettledBelow q.entries.size := by
  have hsize : (q.appended e).entries.size = q.entries.size + 1 := Array.size_push ..
  -- nothing stands below the last slot
  have hlast : ∀ i j, 0 < i → parent i = q.entries.size → (q.appended e).precedesAt i j = false := by
    intro i j hi hp
    rw [← Bool.not_eq_true]
    intro h
    have := lt_size_of_precedesAt h
    have := parent_lt hi
    omega
  refine ⟨⟨?_, ?_⟩, ?_⟩
  · intro i hi _ hih hph
    rw [precedesAt_congr (q := q) (by rw [getElem?_appended, if_neg hih])
      (by rw [getElem?_appended, if_neg hph])]
    exact o i hi
  · intro i hi hp _ _
    exact hlast i _ hi hp
  · intro i hi hp
    exact hlast i _ hi hp

theorem numeric_appended (n : q.Numeric) {e : HeapEntry f} (hc : e.cost.isNaN = false) :
    (q.appended e).Numeric := by
  intro e' he'
  rw [show (q.appended e).entries.toList = q.entries.toList ++ [e] from Array.toList_push,
    List.mem_append, List.mem_singleton] at he'
  rcases he' with he' | rfl
  · exact n e' he'
  · exact hc

/-- A handle that is not queued can be queued. -/
theorem push_spec (s : q.Sound) {e : HeapEntry f} (h : q.contains e.handle = false)
    (hc : e.cost.isNaN = false) :
    ∃ q', q.push e = .ok q' ∧ q'.Sound ∧ q'.entries.toList.Perm (e :: q.entries.toList) := by
  obtain ⟨around, below⟩ := s.ordered.appended e
  have n := numeric_appended s.numeric hc
  have moved := siftUp_rearranges (q.appended e) q.entries.size
  refine ⟨_, push_eq h, ⟨moved.indexed (s.indexed.appended h), ordered_siftUp n around below,
    moved.numeric n⟩, moved.perm.trans ?_⟩
  rw [show (q.appended e).entries.toList = q.entries.toList ++ [e] from Array.toList_push]
  exact List.perm_append_singleton e _

/-! ## Taking an entry out -/

/-- The queue without its last entry. -/
def shortened (q : Heap f) (last : HeapEntry f) : Heap f :=
  ⟨q.entries.pop, q.positions.setIfInBounds last.handle.val none⟩

/-- The queue with its last entry in the slot of a removed one, before it travels. -/
def filled (q : Heap f) (slot : Nat) (removed last : HeapEntry f) : Heap f :=
  ⟨q.entries.pop.setIfInBounds slot last,
    (q.positions.setIfInBounds removed.handle.val none).setIfInBounds last.handle.val (some slot)⟩

section Removal

variable {slot : Nat} {removed last : HeapEntry f}

theorem removeAt_eq_shortened (hlast : q.entries.back? = some last)
    (hslot : slot + 1 = q.entries.size) : q.removeAt slot = q.shortened last := by
  have hremoved : q.entries[slot]? = some last := by
    rw [← hlast, Array.back?_eq_getElem?, ← hslot, Nat.add_sub_cancel]
  unfold removeAt
  rw [hremoved, hlast]
  simp only [Array.size_pop]
  rw [if_neg (by omega)]
  rfl

theorem removeAt_eq_filled (hremoved : q.entries[slot]? = some removed)
    (hlast : q.entries.back? = some last) (hslot : slot + 1 < q.entries.size) :
    q.removeAt slot =
      if 0 < slot ∧ (q.filled slot removed last).precedesAt slot (parent slot) = true then
        (q.filled slot removed last).siftUp slot
      else (q.filled slot removed last).siftDown slot := by
  unfold removeAt
  rw [hremoved, hlast]
  simp only [Array.size_pop]
  rw [if_pos (by omega)]
  rfl

theorem getElem?_shortened (k : Nat) : (q.shortened last).entries[k]? =
    if k = q.entries.size - 1 then none else q.entries[k]? := by
  show q.entries.pop[k]? = _
  rw [Array.getElem?_pop]
  split
  · rw [if_neg (by omega)]
  · split
    · rfl
    · exact (Array.getElem?_eq_none (by omega)).symm

theorem getElem?_filled (hslot : slot + 1 < q.entries.size) (k : Nat) :
    (q.filled slot removed last).entries[k]? =
      if k = q.entries.size - 1 then none else if k = slot then some last else q.entries[k]? := by
  show (q.entries.pop.setIfInBounds slot last)[k]? = _
  rw [Array.getElem?_setIfInBounds, Array.getElem?_pop, Array.size_pop]
  by_cases hk : k = slot
  · rw [if_pos hk.symm, if_pos (by omega), if_neg (by omega), if_pos hk]
  · rw [if_neg (Ne.symm hk), if_neg hk]
    split
    · rw [if_neg (by omega)]
    · split
      · rfl
      · exact (Array.getElem?_eq_none (by omega)).symm

theorem Indexed.shortened (t : q.Indexed) (hlast : q.entries.back? = some last) :
    (q.shortened last).Indexed := by
  rw [Array.back?_eq_getElem?] at hlast
  unfold Indexed
  rw [show (fun slot => (q.shortened last).entries[slot]?) = _ from funext getElem?_shortened,
    show (q.shortened last).position? = _ from
      funext (positionIn_setIfInBounds (t.lt_size hlast) none)]
  exact t.erase hlast

theorem Indexed.filled (t : q.Indexed) (hremoved : q.entries[slot]? = some removed)
    (hlast : q.entries.back? = some last) (hslot : slot + 1 < q.entries.size) :
    (q.filled slot removed last).Indexed := by
  rw [Array.back?_eq_getElem?] at hlast
  have hne : removed.handle ≠ last.handle := fun h => by
    have := t.slot_eq hremoved hlast h
    omega
  -- the last entry and the removed one change places, then the removed one is dropped
  have hswap := (t.swap slot (q.entries.size - 1)).erase (i := q.entries.size - 1) (e := removed)
    (by rw [Equiv.swap_apply_right]; exact hremoved)
  have hentries : (fun k => (q.filled slot removed last).entries[k]?) = fun k =>
      if k = q.entries.size - 1 then none
      else q.entries[Equiv.swap slot (q.entries.size - 1) k]? := by
    funext k
    rw [getElem?_filled hslot]
    split
    · rfl
    · rename_i hk
      split
      · rename_i hks
        rw [hks, Equiv.swap_apply_left, hlast]
      · rename_i hks
        rw [Equiv.swap_apply_of_ne_of_ne hks hk]
  have hpositions : (q.filled slot removed last).position? = fun h =>
      if h = removed.handle then none
      else (q.position? h).map (Equiv.swap slot (q.entries.size - 1)) := by
    funext h
    show positionIn _ h = _
    rw [Heap.filled, positionIn_setIfInBounds
      (by rw [Array.size_setIfInBounds]; exact t.lt_size hlast),
      positionIn_setIfInBounds (t.lt_size hremoved)]
    by_cases hl : h = last.handle
    · rw [if_pos hl, if_neg (by rw [hl]; exact hne.symm), hl, t.slot hlast]
      simp
    · rw [if_neg hl]
      by_cases hr : h = removed.handle
      · rw [if_pos hr, if_pos hr]
      · rw [if_neg hr, if_neg hr]
        show q.position? h = _
        cases hp : q.position? h with
        | none => rfl
        | some k =>
          obtain ⟨e, he, rfl⟩ := t.position?_eq_some_iff.1 hp
          rw [Option.map_some, Equiv.swap_apply_of_ne_of_ne]
          · rintro rfl
            rw [hremoved] at he
            cases he
            exact hr rfl
          · rintro rfl
            rw [hlast] at he
            cases he
            exact hl rfl
  unfold Indexed
  rw [hentries, hpositions]
  exact hswap

theorem perm_shortened (hlast : q.entries.back? = some last) :
    (last :: (q.shortened last).entries.toList).Perm q.entries.toList := by
  obtain ⟨rest, hrest⟩ := Array.back?_eq_some_iff.1 hlast
  show (last :: q.entries.pop.toList).Perm _
  rw [hrest, Array.pop_push, Array.toList_push]
  exact (List.perm_append_singleton last _).symm

theorem perm_filled (hremoved : q.entries[slot]? = some removed)
    (hlast : q.entries.back? = some last) (hslot : slot + 1 < q.entries.size) :
    (removed :: (q.filled slot removed last).entries.toList).Perm q.entries.toList := by
  obtain ⟨rest, hrest⟩ := Array.back?_eq_some_iff.1 hlast
  rw [hrest, Array.size_push] at hslot
  have hlt : slot < rest.toList.length := by
    rw [Array.length_toList]
    omega
  have hget : rest.toList[slot] = removed := by
    rw [hrest, Array.getElem?_push, if_neg (by omega)] at hremoved
    rw [Array.getElem_toList]
    exact (Array.getElem?_eq_some_iff.1 hremoved).2
  show (removed :: (q.entries.pop.setIfInBounds slot last).toList).Perm _
  rw [hrest, Array.pop_push, Array.toList_setIfInBounds, Array.toList_push]
  calc
    List.Perm (removed :: rest.toList.set slot last) (removed :: last :: rest.toList.eraseIdx slot) :=
      (List.set_perm_cons_eraseIdx hlt last).cons _
    List.Perm _ (last :: removed :: rest.toList.eraseIdx slot) := .swap ..
    List.Perm _ (last :: rest.toList) := by
      rw [← hget]
      exact (List.getElem_cons_eraseIdx_perm hlt).cons _
    List.Perm _ (rest.toList ++ [last]) := (List.perm_append_singleton last _).symm

theorem Ordered.shortened (o : q.Ordered) : (q.shortened last).Ordered := by
  intro i hi
  rw [← Bool.not_eq_true]
  intro h
  have hlt := lt_size_of_precedesAt h
  have hsize : (q.shortened last).entries.size = q.entries.size - 1 := Array.size_pop ..
  have hp := parent_lt hi
  rw [precedesAt_congr (q := q) (by rw [getElem?_shortened, if_neg (by omega)])
    (by rw [getElem?_shortened, if_neg (by omega)]), o i hi] at h
  cases h

theorem Ordered.filled (o : q.Ordered) (n : q.Numeric) (hslot : slot + 1 < q.entries.size) :
    (q.filled slot removed last).OrderedAround 0 slot := by
  have hsize : (q.filled slot removed last).entries.size = q.entries.size - 1 := by
    show (q.entries.pop.setIfInBounds slot last).size = _
    simp
  -- what is true of two other slots before is true of them after
  have hkeep : ∀ i j, i ≠ slot → j ≠ slot → j < q.entries.size - 1 →
      q.precedesAt i j = false → (q.filled slot removed last).precedesAt i j = false := by
    intro i j hi hj hjlt h
    rw [← Bool.not_eq_true]
    intro h'
    have hlt := lt_size_of_precedesAt h'
    rw [precedesAt_congr (q := q) (by rw [getElem?_filled hslot, if_neg (by omega), if_neg hi])
      (by rw [getElem?_filled hslot, if_neg (by omega), if_neg hj]), h] at h'
    cases h'
  have around := (orderedFrom_zero.2 o).around n slot
  constructor
  · intro i hi hle hih hph
    by_cases hlt : parent i < q.entries.size - 1
    · exact hkeep i (parent i) hih hph hlt (o i hi)
    · rw [← Bool.not_eq_true]
      intro h
      have := lt_size_right_of_precedesAt h
      omega
  · intro i hi hp hpos hle
    have := parent_lt hi
    have := parent_lt hpos
    exact hkeep i (parent slot) (by omega) (by omega) (by omega) (around.across i hi hp hpos hle)

end Removal

/-- The entry of any slot can be taken out. -/
theorem removeAt_spec (s : q.Sound) {slot : Nat} {removed : HeapEntry f}
    (hremoved : q.entries[slot]? = some removed) :
    (q.removeAt slot).Sound ∧
      (removed :: (q.removeAt slot).entries.toList).Perm q.entries.toList := by
  have hlt := (Array.getElem?_eq_some_iff.1 hremoved).1
  obtain ⟨last, hlast⟩ : ∃ last, q.entries.back? = some last := by
    rw [Array.back?_eq_getElem?]
    exact ⟨_, Array.getElem?_eq_getElem (by omega)⟩
  by_cases hslot : slot + 1 = q.entries.size
  · have heq : removed = last := by
      rw [Array.back?_eq_getElem?, ← hslot, Nat.add_sub_cancel, hremoved] at hlast
      exact Option.some.inj hlast
    subst heq
    have hperm := perm_shortened hlast
    rw [removeAt_eq_shortened hlast hslot]
    exact ⟨⟨s.indexed.shortened hlast, s.ordered.shortened,
      fun e he => s.numeric e (hperm.subset (List.mem_cons_of_mem _ he))⟩, hperm⟩
  · have hslot : slot + 1 < q.entries.size := by omega
    have hperm := perm_filled hremoved hlast hslot
    have n : (q.filled slot removed last).Numeric :=
      fun e he => s.numeric e (hperm.subset (List.mem_cons_of_mem _ he))
    have t := s.indexed.filled hremoved hlast hslot
    have around : (q.filled slot removed last).OrderedAround 0 slot :=
      s.ordered.filled s.numeric hslot
    rw [removeAt_eq_filled hremoved hlast hslot]
    split
    · rename_i hrise
      have moved := siftUp_rearranges (q.filled slot removed last) slot
      refine ⟨⟨moved.indexed t, ordered_siftUp n around ?_, moved.numeric n⟩,
        (moved.perm.cons removed).trans hperm⟩
      -- the entry comes before the one above, and those below do not
      intro i hi hp
      exact not_precedesAt_of_precedesAt n (around.across i hi hp hrise.1 (Nat.zero_le _)) hrise.2
    · rename_i hsink
      have moved := siftDown_rearranges (q.filled slot removed last) slot
      refine ⟨⟨moved.indexed t, orderedFrom_zero.1 (orderedFrom_siftDown n (Nat.zero_le _) around ?_),
        moved.numeric n⟩, (moved.perm.cons removed).trans hperm⟩
      intro hpos _
      exact Bool.eq_false_iff.2 fun h => hsink ⟨hpos, h⟩

/-! ## Taking a handle out -/

theorem position?_front (t : q.Indexed) {e : HeapEntry f} (h : q.peek? = some e) :
    q.position? e.handle = some 0 :=
  t.position?_eq_some_iff.2 ⟨e, h, rfl⟩

theorem pop_eq_erase (t : q.Indexed) {e : HeapEntry f} (h : q.peek? = some e) :
    q.pop = q.erase e.handle := by
  unfold erase
  rw [position?_front t h]
  rfl

/-- Without a handle the other entries are left; a handle that is not queued is no loss. -/
theorem erase_spec (s : q.Sound) (h : CellHandle) :
    (q.erase h).Sound ∧
      (q.erase h).entries.toList.Perm (q.entries.toList.filter fun e => e.handle ≠ h) := by
  unfold erase
  split
  · rename_i slot hslot
    obtain ⟨e, he, rfl⟩ := s.indexed.position?_eq_some_iff.1 hslot
    obtain ⟨s', hperm⟩ := removeAt_spec s he
    have hnodup : (e.handle :: (q.removeAt slot).handles).Nodup :=
      (hperm.map HeapEntry.handle).nodup_iff.2 s.indexed.handles_nodup
    have hrest : (q.removeAt slot).entries.toList.filter (fun e' => e'.handle ≠ e.handle) =
        (q.removeAt slot).entries.toList := by
      rw [List.filter_eq_self]
      intro e' he'
      refine decide_eq_true fun heq => (List.nodup_cons.1 hnodup).1 ?_
      exact heq ▸ List.mem_map_of_mem he'
    refine ⟨s', ?_⟩
    have := hperm.filter fun e' => decide (e'.handle ≠ e.handle)
    rwa [List.filter_cons_of_neg (by simp), hrest] at this
  · rename_i hnone
    have hcontains : q.contains h = false := by
      unfold contains
      rw [hnone]
      rfl
    refine ⟨s, .of_eq (List.filter_eq_self.2 fun e he => decide_eq_true ?_).symm⟩
    exact (contains_eq_false_iff s.indexed).1 hcontains e he

/-! ## Given entries -/

/-- Handles that are all different fill the table. -/
theorem tableFrom_spec (t : q.Indexed) {rest : List (HeapEntry f)}
    (nodup : (q.handles ++ rest.map (·.handle)).Nodup) :
    ∃ positions, tableFrom q.positions q.entries.size rest = .ok positions ∧
      (Heap.mk (q.entries ++ rest.toArray) positions).Indexed := by
  induction rest generalizing q with
  | nil => exact ⟨q.positions, rfl, by simpa using t⟩
  | cons e rest ih =>
    have hcontains : q.contains e.handle = false := by
      rw [← Bool.not_eq_true, ← t.mem_handles_iff]
      intro hmem
      exact (List.nodup_append.1 nodup).2.2 _ hmem _ (List.mem_cons_self ..) rfl
    have hhandles : (q.appended e).handles = q.handles ++ [e.handle] := by
      unfold handles
      rw [show (q.appended e).entries.toList = q.entries.toList ++ [e] from Array.toList_push,
        List.map_append]
      rfl
    obtain ⟨positions, hok, t'⟩ := ih (t.appended hcontains) (by
      rw [hhandles, List.append_assoc]
      exact nodup)
    refine ⟨positions, ?_, ?_⟩
    · unfold tableFrom
      rw [show (positionIn q.positions e.handle).isSome = false from hcontains]
      rw [show (q.appended e).entries.size = q.entries.size + 1 from Array.size_push ..] at hok
      exact hok
    · rw [show (q.appended e).entries ++ rest.toArray = q.entries ++ (e :: rest).toArray by
        show q.entries.push e ++ rest.toArray = _
        apply Array.toList_inj.1
        simp] at t'
      exact t'

/-- Entries with different handles can be queued at once. -/
theorem ofEntries_spec {entries : List (HeapEntry f)} (nodup : (entries.map (·.handle)).Nodup)
    (n : ∀ e ∈ entries, e.cost.isNaN = false) :
    ∃ q, ofEntries entries = .ok q ∧ q.Sound ∧ q.entries.toList.Perm entries := by
  have nodup' : ((empty : Heap f).handles ++ entries.map (·.handle)).Nodup := by
    simpa [handles, empty] using nodup
  obtain ⟨positions, hok, t⟩ := tableFrom_spec sound_empty.indexed nodup'
  have hentries : (empty : Heap f).entries ++ entries.toArray = entries.toArray := by
    simp [empty]
  rw [hentries] at t
  have n' : (Heap.mk entries.toArray positions).Numeric := n
  have moved := heapify_rearranges (Heap.mk entries.toArray positions) (entries.length / 2)
  refine ⟨_, ?_, ⟨moved.indexed t, ordered_heapify n', moved.numeric n'⟩, moved.perm⟩
  unfold ofEntries
  rw [show tableFrom #[] 0 entries = .ok positions from hok]
  rfl

/-! ## The front -/

theorem peek?_eq_none_iff : q.peek? = none ↔ q.entries.toList = [] := by
  unfold peek?
  rw [Array.getElem?_eq_none_iff, ← Array.length_toList, Nat.le_zero, List.length_eq_zero_iff]

/-- At the front stands an entry that none has to come out before. -/
theorem Sound.peek?_first (s : q.Sound) {e : HeapEntry f} (h : q.peek? = some e) :
    e ∈ q.entries.toList ∧ ∀ e' ∈ q.entries.toList, e'.precedes e = false := by
  have h0 : q.entries[0]? = some e := h
  refine ⟨Array.mem_toList_iff.2 (Array.mem_of_getElem? h0), ?_⟩
  intro e' he'
  obtain ⟨i, hi⟩ := List.getElem?_of_mem he'
  rw [Array.getElem?_toList] at hi
  have := s.ordered.not_precedesAt_front s.numeric i
  unfold precedesAt at this
  rwa [hi, h0] at this

end Heap

end BranchBound
