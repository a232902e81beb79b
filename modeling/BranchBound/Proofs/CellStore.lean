/-
The store of cells as a collection of pending cells with handles. A store is sound if the slots
given back are exactly the empty ones, each once, and the number of pending cells is right. On a
sound store an insertion never fails and adds one cell under a handle that was not in use
(`insert_spec`), and taking cells out leaves all others as they were (`erase_spec`,
`eraseAll_filter`). No two pending cells have one handle (`handles_nodup`).
-/
import BranchBound.CellStore
import Mathlib.Data.List.Nodup
import Mathlib.Data.Multiset.AddSub

namespace BranchBound

/-- Sequence numbers as they are given out. -/
structure Numbering where
  /-- Those of the pending cells. -/
  given : Multiset Nat
  /-- The one that the next cell gets. -/
  next : Nat

namespace Numbering

/-- The next number is given out. -/
def push (n : Numbering) : Numbering := ⟨n.next ::ₘ n.given, Counter.raise n.next 1⟩

/-- No number is given out, and some may have gone with their cells. -/
def Keeps (n n' : Numbering) : Prop := n'.given ≤ n.given ∧ n'.next = n.next

end Numbering

namespace CellStore

variable {f : Format} {s : CellStore f}

/-! ## The cells of some slots -/

/-- The cells in some slots, the first of which has the index given. -/
def occupants (first : Nat) (slots : List (Option (Stored f))) : List (Pending f) :=
  (slots.zipIdx first).filterMap fun (slot, index) =>
    slot.map fun stored => ⟨⟨index⟩, stored.cell, stored.seq⟩

theorem pending_eq (s : CellStore f) : s.pending = occupants 0 s.slots.toList := rfl

@[simp]
theorem occupants_none (first : Nat) (slots : List (Option (Stored f))) :
    occupants first (none :: slots) = occupants (first + 1) slots := rfl

@[simp]
theorem occupants_some (first : Nat) (stored : Stored f) (slots : List (Option (Stored f))) :
    occupants first (some stored :: slots) =
      ⟨⟨first⟩, stored.cell, stored.seq⟩ :: occupants (first + 1) slots := rfl

theorem occupants_append (first : Nat) (slots more : List (Option (Stored f))) :
    occupants first (slots ++ more) =
      occupants first slots ++ occupants (first + slots.length) more := by
  unfold occupants
  rw [List.zipIdx_append, List.filterMap_append]

theorem mem_occupants_iff {first : Nat} {slots : List (Option (Stored f))} {p : Pending f} :
    p ∈ occupants first slots ↔
      ∃ i, slots[i]? = some (some ⟨p.cell, p.seq⟩) ∧ p.handle.val = first + i := by
  unfold occupants
  rw [List.mem_filterMap]
  constructor
  · rintro ⟨⟨slot, index⟩, hmem, hp⟩
    obtain ⟨stored, rfl, rfl⟩ := Option.map_eq_some_iff.1 hp
    obtain ⟨hle, hget⟩ := List.mk_mem_zipIdx_iff_le_and_getElem?_sub.1 hmem
    exact ⟨index - first, hget, by show index = _; omega⟩
  · rintro ⟨i, hget, hp⟩
    refine ⟨(some ⟨p.cell, p.seq⟩, first + i), ?_, ?_⟩
    · rw [List.mk_mem_zipIdx_iff_le_and_getElem?_sub]
      exact ⟨by omega, by rw [Nat.add_sub_cancel_left]; exact hget⟩
    · rw [← hp]
      rfl

/-- Cells stand in the order of their handles. -/
theorem occupants_pairwise (first : Nat) (slots : List (Option (Stored f))) :
    (occupants first slots).Pairwise fun p p' => p.handle.val < p'.handle.val := by
  induction slots generalizing first with
  | nil => exact .nil
  | cons slot slots ih =>
    cases slot with
    | none => exact ih (first + 1)
    | some stored =>
      rw [occupants_some, List.pairwise_cons]
      refine ⟨fun p hp => ?_, ih (first + 1)⟩
      obtain ⟨i, _, hi⟩ := mem_occupants_iff.1 hp
      show first < _
      omega

/-- A cell put into an empty slot comes to the others. -/
theorem occupants_set_some (first i : Nat) {slots : List (Option (Stored f))} (stored : Stored f)
    (h : slots[i]? = some none) :
    (occupants first (slots.set i (some stored))).Perm
      (⟨⟨first + i⟩, stored.cell, stored.seq⟩ :: occupants first slots) := by
  induction slots generalizing first i with
  | nil => cases h
  | cons slot slots ih =>
    cases i with
    | zero =>
      cases h
      exact .refl _
    | succ i =>
      have ih' := ih (first + 1) i h
      rw [show first + 1 + i = first + (i + 1) by omega] at ih'
      cases slot with
      | none => exact ih'
      | some other => exact (ih'.cons _).trans (.swap ..)

/-- A slot that is emptied loses its cell, and no other slot does. -/
theorem occupants_set_none (first i : Nat) (slots : List (Option (Stored f))) :
    occupants first (slots.set i none) =
      (occupants first slots).filter fun p => p.handle.val ≠ first + i := by
  induction slots generalizing first i with
  | nil => rfl
  | cons slot slots ih =>
    have hlater : (occupants (first + 1) slots).filter (fun p => p.handle.val ≠ first) =
        occupants (first + 1) slots := by
      rw [List.filter_eq_self]
      intro p hp
      obtain ⟨j, _, hj⟩ := mem_occupants_iff.1 hp
      exact decide_eq_true (by omega)
    cases i with
    | zero =>
      cases slot with
      | none => exact hlater.symm
      | some stored =>
        rw [List.set_cons_zero, occupants_none, occupants_some, Nat.add_zero,
          List.filter_cons_of_neg (by simp)]
        exact hlater.symm
    | succ i =>
      have ih' := ih (first + 1) i
      rw [show first + 1 + i = first + (i + 1) by omega] at ih'
      cases slot with
      | none => exact ih'
      | some stored =>
        have hne : decide (first ≠ first + (i + 1)) = true := decide_eq_true (by omega)
        rw [List.set_cons_succ, occupants_some, occupants_some, ih', List.filter_cons]
        exact (if_pos hne).symm

/-! ## Looking -/

theorem stored?_eq_some_iff {h : CellHandle} {stored : Stored f} :
    s.stored? h = some stored ↔ s.slots[h.val]? = some (some stored) := by
  unfold stored?
  cases s.slots[h.val]? <;> simp

theorem mem_pending_iff {p : Pending f} :
    p ∈ s.pending ↔ s.stored? p.handle = some ⟨p.cell, p.seq⟩ := by
  rw [pending_eq, mem_occupants_iff, stored?_eq_some_iff]
  simp only [Nat.zero_add, Array.getElem?_toList]
  constructor
  · rintro ⟨i, hi, hp⟩
    rwa [hp]
  · intro h
    exact ⟨_, h, rfl⟩

theorem pending_inj {p p' : Pending f} (hp : p ∈ s.pending) (hp' : p' ∈ s.pending)
    (h : p.handle = p'.handle) : p = p' := by
  rw [mem_pending_iff] at hp hp'
  rw [h, hp'] at hp
  obtain ⟨_, cell, seq⟩ := p
  obtain ⟨_, cell', seq'⟩ := p'
  cases h
  cases hp
  rfl

/-- No two pending cells have one handle. -/
theorem handles_nodup (s : CellStore f) : (s.pending.map (·.handle)).Nodup := by
  rw [List.nodup_iff_pairwise_ne, List.pairwise_map]
  refine (occupants_pairwise 0 s.slots.toList).imp fun hlt heq => ?_
  rw [heq] at hlt
  exact Nat.lt_irrefl _ hlt

/-- A pending cell and those with other handles are all pending cells. -/
theorem pending_perm_cons {p : Pending f} (hp : p ∈ s.pending) :
    (p :: s.pending.filter fun p' => p'.handle ≠ p.handle).Perm s.pending := by
  have hothers : (s.pending.filter fun p' => p'.handle ≠ p.handle) = s.pending.erase p := by
    rw [(List.Nodup.of_map _ s.handles_nodup).erase_eq_filter]
    refine List.filter_congr fun p' hp' => ?_
    rw [Bool.eq_iff_iff, decide_eq_true_iff, bne_iff_ne]
    exact not_congr ⟨pending_inj hp' hp, congrArg Pending.handle⟩
  rw [hothers]
  exact (List.perm_cons_erase hp).symm

theorem contains_iff {h : CellHandle} :
    s.contains h = true ↔ ∃ p ∈ s.pending, p.handle = h := by
  unfold contains
  rw [Option.isSome_iff_exists]
  constructor
  · rintro ⟨stored, hs⟩
    exact ⟨⟨h, stored.cell, stored.seq⟩, mem_pending_iff.2 hs, rfl⟩
  · rintro ⟨p, hp, rfl⟩
    exact ⟨_, mem_pending_iff.1 hp⟩

theorem contains_eq_false_iff {h : CellHandle} :
    s.contains h = false ↔ ∀ p ∈ s.pending, p.handle ≠ h := by
  rw [← Bool.not_eq_true, contains_iff]
  constructor
  · intro hn p hp heq
    exact hn ⟨p, hp, heq⟩
  · rintro hn ⟨p, hp, heq⟩
    exact hn p hp heq

theorem get?_of_mem {p : Pending f} (h : p ∈ s.pending) : s.get? p.handle = some p.cell := by
  unfold get?
  rw [mem_pending_iff.1 h]
  rfl

theorem get?_eq_none_iff {h : CellHandle} : s.get? h = none ↔ s.contains h = false := by
  unfold get? contains
  cases s.stored? h <;> simp

/-! ## Soundness -/

/-- The slots given back are the empty ones, each once, and the number of pending cells is right. -/
structure Sound (s : CellStore f) : Prop where
  free : ∀ slot, slot ∈ s.free ↔ s.slots[slot]? = some none
  nodup : s.free.Nodup
  size : s.size = s.pending.length

theorem sound_empty : (empty : CellStore f).Sound where
  free := by simp [empty]
  nodup := .nil
  size := rfl

theorem Sound.clear (s : CellStore f) : s.clear.Sound where
  free := by simp [CellStore.clear]
  nodup := .nil
  size := rfl

theorem pending_clear (s : CellStore f) : s.clear.pending = [] := rfl

theorem isEmpty_iff (h : s.Sound) : s.isEmpty = true ↔ s.pending = [] := by
  unfold isEmpty
  rw [h.size, beq_iff_eq, List.length_eq_zero_iff]

/-! ## Inserting -/

/-- A cell can always be put in, under a handle that is not in use. -/
theorem insert_spec (h : s.Sound) (cell : Cell f) :
    ∃ s' handle, s.insert cell = .ok (s', handle) ∧ s'.Sound ∧ s.contains handle = false ∧
      s'.pending.Perm (⟨handle, cell, s.nextSeq⟩ :: s.pending) ∧
      s'.nextSeq = Counter.raise s.nextSeq 1 := by
  unfold insert
  cases hfree : s.free with
  | nil =>
    -- no slot was given back: the cell comes behind all others
    have hpending : occupants 0 (s.slots.push (some ⟨cell, s.nextSeq⟩)).toList =
        s.pending ++ [⟨⟨s.slots.size⟩, cell, s.nextSeq⟩] := by
      rw [Array.toList_push, occupants_append, Nat.zero_add, Array.length_toList]
      rfl
    refine ⟨_, _, rfl, ⟨?_, ?_, ?_⟩, ?_, ?_, rfl⟩
    · intro slot
      have hold := h.free slot
      simp only [hfree, List.not_mem_nil, false_iff] at hold ⊢
      rw [Array.getElem?_push]
      split
      · exact fun e => by cases e
      · exact hold
    · exact hfree ▸ .nil
    · show s.size + 1 = _
      rw [pending_eq, hpending, List.length_append, ← h.size]
      rfl
    · unfold contains stored?
      rw [Array.getElem?_eq_none (Nat.le_refl _)]
      rfl
    · rw [pending_eq, hpending]
      exact List.perm_append_singleton _ _
  | cons slot free =>
    -- the slot given back last is empty and no longer free
    have hslot : s.slots[slot]? = some none := (h.free slot).1 (by simp [hfree])
    have hlt := (Array.getElem?_eq_some_iff.1 hslot).1
    have hcontains : s.contains ⟨slot⟩ = false := by
      unfold contains stored?
      rw [hslot]
      rfl
    have hnodup := hfree ▸ h.nodup
    have hperm : (occupants 0 (s.slots.setIfInBounds slot (some ⟨cell, s.nextSeq⟩)).toList).Perm
        (⟨⟨slot⟩, cell, s.nextSeq⟩ :: s.pending) := by
      rw [Array.toList_setIfInBounds]
      have := occupants_set_some 0 slot ⟨cell, s.nextSeq⟩
        (show s.slots.toList[slot]? = some none by rwa [Array.getElem?_toList])
      rwa [Nat.zero_add] at this
    simp only [hcontains]
    refine ⟨_, _, rfl, ⟨?_, (List.nodup_cons.1 hnodup).2, ?_⟩, hcontains, hperm, rfl⟩
    · intro other
      show other ∈ free ↔ (s.slots.setIfInBounds slot (some ⟨cell, s.nextSeq⟩))[other]? = some none
      rw [Array.getElem?_setIfInBounds]
      split
      · rename_i heq
        subst heq
        constructor
        · intro hmem
          exact absurd hmem (List.nodup_cons.1 hnodup).1
        · intro e
          cases e
      · rename_i hne
        rw [← h.free other, hfree, List.mem_cons]
        constructor
        · exact .inr
        · rintro (rfl | hmem)
          · exact absurd rfl hne
          · exact hmem
    · show s.size + 1 = _
      rw [pending_eq, hperm.length_eq, List.length_cons, ← h.size]

/-! ## Taking cells out -/

/-- Of a pending cell the removal gives the cell, and leaves the store without it. -/
theorem remove_eq {h : CellHandle} {stored : Stored f} (hs : s.stored? h = some stored) :
    s.remove h = some (stored.cell, s.erase h) := by
  unfold erase remove
  rw [hs]
  rfl

/-- Without a handle the other cells are left as they were. -/
theorem erase_spec (h : s.Sound) (handle : CellHandle) :
    (s.erase handle).Sound ∧
      (s.erase handle).pending = (s.pending.filter fun p => p.handle ≠ handle) ∧
      (s.erase handle).nextSeq = s.nextSeq := by
  cases hs : s.stored? handle with
  | none =>
    have heq : s.erase handle = s := by
      unfold erase remove
      rw [hs]
      rfl
    rw [heq]
    refine ⟨h, (List.filter_eq_self.2 fun p hp => decide_eq_true ?_).symm, rfl⟩
    rintro rfl
    rw [mem_pending_iff.1 hp] at hs
    cases hs
  | some stored =>
    have hslot := stored?_eq_some_iff.1 hs
    have hlt := (Array.getElem?_eq_some_iff.1 hslot).1
    have heq : s.erase handle = { s with
        slots := s.slots.setIfInBounds handle.val none
        free := handle.val :: s.free
        size := s.size - 1 } := by
      unfold erase remove
      rw [hs]
      rfl
    have hpending : (s.erase handle).pending = s.pending.filter fun p => p.handle ≠ handle := by
      rw [heq, pending_eq, Array.toList_setIfInBounds, occupants_set_none, pending_eq]
      refine List.filter_congr fun p _ => ?_
      rw [Nat.zero_add, decide_eq_decide]
      exact not_congr Index.val_inj
    refine ⟨⟨?_, ?_, ?_⟩, hpending, by rw [heq]⟩
    · intro slot
      rw [heq]
      show slot ∈ handle.val :: s.free ↔ (s.slots.setIfInBounds handle.val none)[slot]? = some none
      rw [List.mem_cons, h.free slot, Array.getElem?_setIfInBounds]
      by_cases hv : handle.val = slot
      · simp [← hv, hlt]
      · rw [if_neg hv]
        exact ⟨fun hor => hor.resolve_left (Ne.symm hv), .inr⟩
    · rw [heq]
      refine List.nodup_cons.2 ⟨fun hmem => ?_, h.nodup⟩
      rw [h.free, hslot] at hmem
      cases hmem
    · have hlength := (pending_perm_cons (p := ⟨handle, stored.cell, stored.seq⟩)
        (mem_pending_iff.2 hs)).length_eq
      rw [List.length_cons, ← hpending, ← h.size] at hlength
      have hsize : (s.erase handle).size = s.size - 1 := by rw [heq]
      rw [hsize, ← hlength, Nat.add_sub_cancel]

/-- Taking several cells out leaves the cells that have none of their handles. -/
theorem eraseAll_spec {α : Type} (handleOf : α → CellHandle) (taken : List α) (h : s.Sound) :
    let rest := taken.foldl (fun s a => s.erase (handleOf a)) s
    rest.Sound ∧ rest.pending = (s.pending.filter fun p => p.handle ∉ taken.map handleOf) ∧
      rest.nextSeq = s.nextSeq := by
  induction taken generalizing s with
  | nil => exact ⟨h, (List.filter_eq_self.2 fun p _ => by simp).symm, rfl⟩
  | cons a taken ih =>
    obtain ⟨h', hpending, hseq⟩ := erase_spec h (handleOf a)
    obtain ⟨hrest, hpending', hseq'⟩ := ih h'
    refine ⟨hrest, ?_, hseq'.trans hseq⟩
    rw [List.foldl_cons, hpending', hpending, List.filter_filter]
    refine List.filter_congr fun p _ => ?_
    rw [← Bool.decide_and, decide_eq_decide, List.map_cons, List.mem_cons, not_or, and_comm]

/-- Taking out all cells with a property leaves those without it. -/
theorem eraseAll_filter {α : Type} {handleOf : α → CellHandle} {taken : List α} (h : s.Sound)
    (out : Cell f → Bool)
    (htaken : taken.map handleOf = (s.pending.filter fun p => out p.cell).map (·.handle)) :
    let rest := taken.foldl (fun s a => s.erase (handleOf a)) s
    rest.Sound ∧ rest.pending = (s.pending.filter fun p => !out p.cell) ∧
      rest.nextSeq = s.nextSeq := by
  obtain ⟨sound, hpending, hseq⟩ := eraseAll_spec handleOf taken h
  refine ⟨sound, ?_, hseq⟩
  rw [hpending, htaken]
  refine List.filter_congr fun p hp => ?_
  have hmem : p.handle ∈ (s.pending.filter fun p => out p.cell).map (·.handle) ↔
      out p.cell = true := by
    rw [List.mem_map]
    constructor
    · rintro ⟨p', hp', heq⟩
      obtain ⟨hmem, hout⟩ := List.mem_filter.1 hp'
      rwa [← pending_inj hmem hp heq]
    · intro hout
      exact ⟨p, List.mem_filter.2 ⟨hp, hout⟩, rfl⟩
  rw [Bool.eq_iff_iff, decide_eq_true_iff, hmem, Bool.not_eq_true', Bool.not_eq_true]

/-! ## The cells without their handles -/

/-- The pending cells, of which some may be equal. -/
def content (s : CellStore f) : Multiset (Cell f) := ↑(s.pending.map (·.cell))

theorem Sound.card_content (h : s.Sound) : s.content.card = s.size := by
  rw [h.size, content, Multiset.coe_card, List.length_map]

theorem mem_content_iff {cell : Cell f} :
    cell ∈ s.content ↔ ∃ p ∈ s.pending, p.cell = cell := by
  simp [content]

theorem content_eq_zero_iff : s.content = 0 ↔ s.pending = [] := by
  simp [content]

theorem content_of_perm_cons {s' : CellStore f} {p : Pending f}
    (hperm : s'.pending.Perm (p :: s.pending)) : s'.content = p.cell ::ₘ s.content :=
  Multiset.coe_eq_coe.2 (hperm.map (·.cell))

theorem content_erase (h : s.Sound) {p : Pending f} (hp : p ∈ s.pending) :
    s.content = p.cell ::ₘ (s.erase p.handle).content := by
  refine content_of_perm_cons ?_
  rw [(erase_spec h p.handle).2.1]
  exact (pending_perm_cons hp).symm

/-- The cells with a property and those without it are all cells. -/
theorem content_filter {s' : CellStore f} (out : Cell f → Bool)
    (hpending : s'.pending = s.pending.filter fun p => !out p.cell) :
    s.content = ↑((s.pending.filter fun p => out p.cell).map (·.cell)) + s'.content := by
  rw [content, content, Multiset.coe_add, hpending, ← List.map_append]
  exact Multiset.coe_eq_coe.2 ((List.filter_append_perm _ _).symm.map _)

/-! ## The sequence numbers -/

/-- The sequence numbers of the pending cells, and the one that the next cell gets. -/
def numbering (s : CellStore f) : Numbering := ⟨↑(s.pending.map (·.seq)), s.nextSeq⟩

theorem numbering_of_perm_cons {s' : CellStore f} {p : Pending f} (hseq : p.seq = s.nextSeq)
    (hperm : s'.pending.Perm (p :: s.pending))
    (hnext : s'.nextSeq = Counter.raise s.nextSeq 1) : s'.numbering = s.numbering.push := by
  unfold numbering Numbering.push
  rw [hnext, ← hseq]
  exact congrArg (Numbering.mk · _) (Multiset.coe_eq_coe.2 (hperm.map (·.seq)))

/-- Taking cells out gives no sequence number back. -/
theorem keeps_of_filter {s' : CellStore f} {keep : Pending f → Bool}
    (hpending : s'.pending = s.pending.filter keep) (hnext : s'.nextSeq = s.nextSeq) :
    s.numbering.Keeps s'.numbering := by
  refine ⟨?_, hnext⟩
  unfold numbering
  rw [hpending]
  exact Multiset.coe_le.2 (List.filter_sublist.map _).subperm

theorem keeps_clear (s : CellStore f) : s.numbering.Keeps s.clear.numbering :=
  ⟨Multiset.zero_le _, rfl⟩

end CellStore

end BranchBound
