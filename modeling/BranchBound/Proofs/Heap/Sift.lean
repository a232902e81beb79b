/-
Restoring the order of a heap. Main statements: a heap that is in order but for the entry of one
slot is in order after that entry has risen (`ordered_siftUp`) or sunk
(`orderedFrom_siftDown`), whichever way it has to travel, and `heapify` puts any entries in order
(`ordered_heapify`). On the way entries only change places, and the table follows them
(`Rearranges`).

Nothing here looks at costs: precedence is used only as a relation of which at most one of two
entries has to come first (`precedesAt_asymm`) and no third entry stands outside
(`precedesAt_cotrans`).
-/
import BranchBound.Proofs.Heap.Precedence
import BranchBound.Proofs.Heap.Table

namespace BranchBound

namespace Heap

variable {f : Format} {q q' : Heap f}

/-! ## Precedence of slots -/

/-- The costs of all entries are numbers. -/
def Numeric (q : Heap f) : Prop := ∀ e ∈ q.entries.toList, e.cost.isNaN = false

theorem precedesAt_iff {i j : Nat} : q.precedesAt i j = true ↔
    ∃ a b, q.entries[i]? = some a ∧ q.entries[j]? = some b ∧ a.precedes b = true := by
  unfold precedesAt
  cases q.entries[i]? <;> cases q.entries[j]? <;> simp

theorem precedesAt_irrefl (i : Nat) : q.precedesAt i i = false := by
  unfold precedesAt
  cases q.entries[i]? with
  | none => rfl
  | some a => exact HeapEntry.precedes_irrefl a

theorem Numeric.at (n : q.Numeric) {i : Nat} {e : HeapEntry f} (h : q.entries[i]? = some e) :
    e.cost.isNaN = false :=
  n e (Array.mem_toList_iff.2 (Array.mem_of_getElem? h))

theorem precedesAt_asymm (n : q.Numeric) {i j : Nat} (h : q.precedesAt i j = true) :
    q.precedesAt j i = false := by
  obtain ⟨a, b, ha, hb, hab⟩ := precedesAt_iff.1 h
  unfold precedesAt
  rw [ha, hb]
  exact HeapEntry.precedes_asymm (n.at ha) (n.at hb) hab

theorem precedesAt_cotrans (n : q.Numeric) {i j k : Nat} (hj : j < q.entries.size)
    (h : q.precedesAt i k = true) : q.precedesAt i j = true ∨ q.precedesAt j k = true := by
  obtain ⟨a, c, ha, hc, hac⟩ := precedesAt_iff.1 h
  have hb : q.entries[j]? = some q.entries[j] := Array.getElem?_eq_getElem hj
  rcases HeapEntry.precedes_cotrans (n.at ha) (n.at hb) (n.at hc) hac with hab | hbc
  · exact .inl (precedesAt_iff.2 ⟨_, _, ha, hb, hab⟩)
  · exact .inr (precedesAt_iff.2 ⟨_, _, hb, hc, hbc⟩)

theorem lt_size_right_of_precedesAt {i j : Nat} (h : q.precedesAt i j = true) :
    j < q.entries.size := by
  obtain ⟨_, _, _, hb, _⟩ := precedesAt_iff.1 h
  exact (Array.getElem?_eq_some_iff.1 hb).1

/-- Not to precede is transitive over entries. -/
theorem not_precedesAt_trans (n : q.Numeric) {i j k : Nat} (hj : j < q.entries.size)
    (hij : q.precedesAt i j = false) (hjk : q.precedesAt j k = false) :
    q.precedesAt i k = false := by
  rw [← Bool.not_eq_true]
  intro h
  rcases precedesAt_cotrans n hj h with h | h
  · rw [hij] at h
    cases h
  · rw [hjk] at h
    cases h

/-- What does not precede an entry does not precede one that comes before it. -/
theorem not_precedesAt_of_precedesAt (n : q.Numeric) {i j k : Nat} (hij : q.precedesAt i j = false)
    (hkj : q.precedesAt k j = true) : q.precedesAt i k = false := by
  rw [← Bool.not_eq_true]
  intro h
  rcases precedesAt_cotrans n (lt_size_right_of_precedesAt hkj) h with h | h
  · rw [hij] at h
    cases h
  · rw [precedesAt_asymm n hkj] at h
    cases h

/-! ## Exchanging entries -/

/-- A queue with the entries of another one in other slots, its table brought up to date. -/
structure Rearranges (q' q : Heap f) : Prop where
  perm : q'.entries.toList.Perm q.entries.toList
  indexed : q.Indexed → q'.Indexed

namespace Rearranges

theorem refl (q : Heap f) : q.Rearranges q := ⟨.refl _, id⟩

theorem trans {q'' : Heap f} (h : q''.Rearranges q') (h' : q'.Rearranges q) : q''.Rearranges q :=
  ⟨h.perm.trans h'.perm, fun t => h.indexed (h'.indexed t)⟩

theorem numeric (h : q'.Rearranges q) (n : q.Numeric) : q'.Numeric :=
  fun e he => n e (h.perm.mem_iff.1 he)

end Rearranges

section Exchange

variable {i j : Nat} (hi : i < q.entries.size) (hj : j < q.entries.size)
include hi hj

theorem exchange_eq : q.exchange i j =
    { entries := q.entries.swap i j
      positions := (q.positions.setIfInBounds q.entries[j].handle.val (some i)).setIfInBounds
        q.entries[i].handle.val (some j) } := by
  unfold exchange
  rw [Array.getElem?_eq_getElem hi, Array.getElem?_eq_getElem hj]
  simp [Array.swap_def, Array.setIfInBounds_def, hi, hj]

theorem getElem?_exchange (k : Nat) :
    (q.exchange i j).entries[k]? = q.entries[Equiv.swap i j k]? := by
  rw [exchange_eq hi hj]
  simp only [Array.getElem?_swap, Equiv.swap_apply_def]
  by_cases hkj : j = k
  · subst hkj
    rw [if_pos rfl]
    by_cases hij : j = i
    · subst hij
      simp [hi]
    · simp [hij, hi]
  · rw [if_neg hkj, if_neg (Ne.symm hkj)]
    by_cases hki : i = k
    · simp [hki, hj]
    · rw [if_neg hki, if_neg (Ne.symm hki)]

theorem precedesAt_exchange (k l : Nat) :
    (q.exchange i j).precedesAt k l = q.precedesAt (Equiv.swap i j k) (Equiv.swap i j l) := by
  unfold precedesAt
  rw [getElem?_exchange hi hj, getElem?_exchange hi hj]

theorem position?_exchange (t : q.Indexed) (h : CellHandle) :
    (q.exchange i j).position? h = (q.position? h).map (Equiv.swap i j) := by
  have hgi : q.entries[i]? = some q.entries[i] := Array.getElem?_eq_getElem hi
  have hgj : q.entries[j]? = some q.entries[j] := Array.getElem?_eq_getElem hj
  rw [exchange_eq hi hj]
  unfold position?
  rw [positionIn_setIfInBounds (by rw [Array.size_setIfInBounds]; exact t.lt_size hgi),
    positionIn_setIfInBounds (t.lt_size hgj)]
  by_cases hhi : h = q.entries[i].handle
  · rw [if_pos hhi, hhi, show positionIn q.positions _ = some i from t.slot hgi]
    simp
  · rw [if_neg hhi]
    by_cases hhj : h = q.entries[j].handle
    · rw [if_pos hhj, hhj, show positionIn q.positions _ = some j from t.slot hgj]
      simp
    · rw [if_neg hhj]
      cases hs : positionIn q.positions h with
      | none => rfl
      | some slot =>
        obtain ⟨e, he, rfl⟩ := t.position?_eq_some_iff.1 hs
        have hne : ∀ {k : Nat} (hk : k < q.entries.size), e.handle ≠ q.entries[k].handle →
            slot ≠ k := by
          rintro k hk hne rfl
          rw [Array.getElem?_eq_getElem hk] at he
          cases he
          exact hne rfl
        rw [Option.map_some, Equiv.swap_apply_of_ne_of_ne (hne hi hhi) (hne hj hhj)]

theorem exchange_rearranges : (q.exchange i j).Rearranges q where
  perm := by
    rw [exchange_eq hi hj]
    exact (Array.swap_perm hi hj).toList
  indexed t := by
    have := t.swap i j
    unfold Indexed
    simp only [getElem?_exchange hi hj]
    rw [show (q.exchange i j).position? = _ from funext (position?_exchange hi hj t)]
    exact this

end Exchange

theorem siftUp_rearranges (q : Heap f) (slot : Nat) : (q.siftUp slot).Rearranges q := by
  induction q, slot using siftUp.induct with
  | case1 q slot hslot hp ih =>
    rw [siftUp, dif_pos hslot, if_pos hp]
    exact ih.trans (exchange_rearranges (lt_size_of_precedesAt hp) (lt_size_right_of_precedesAt hp))
  | case2 q slot hslot hp =>
    rw [siftUp, dif_pos hslot, if_neg hp]
    exact .refl q
  | case3 q slot hslot =>
    rw [siftUp, dif_neg hslot]
    exact .refl q

theorem siftDown_rearranges (q : Heap f) (slot : Nat) : (q.siftDown slot).Rearranges q := by
  induction q, slot using siftDown.induct with
  | case1 q slot hp ih =>
    rw [siftDown, dif_pos hp]
    exact ih.trans (exchange_rearranges (lt_size_right_of_precedesAt hp) (lt_size_of_precedesAt hp))
  | case2 q slot hp =>
    rw [siftDown, dif_neg hp]
    exact .refl q

theorem heapify_rearranges (q : Heap f) (count : Nat) : (q.heapify count).Rearranges q := by
  induction count generalizing q with
  | zero => exact .refl q
  | succ count ih => exact (ih (q.siftDown count)).trans (siftDown_rearranges q count)

/-! ## Order -/

/-- No entry has to come out before the one above it. -/
def Ordered (q : Heap f) : Prop := ∀ i, 0 < i → q.precedesAt i (parent i) = false

/-- No entry has to come out before the one above it, where that stands at `low` or later. -/
def OrderedFrom (q : Heap f) (low : Nat) : Prop :=
  ∀ i, 0 < i → low ≤ parent i → q.precedesAt i (parent i) = false

theorem orderedFrom_zero : q.OrderedFrom 0 ↔ q.Ordered :=
  ⟨fun h i hi => h i hi (Nat.zero_le _), fun h i hi _ => h i hi⟩

/-- In order from `low` on but for the entry at `hole`: the entries that are not at the hole are in
order, those below the hole also with the one above it. -/
structure OrderedAround (q : Heap f) (low hole : Nat) : Prop where
  apart : ∀ i, 0 < i → low ≤ parent i → i ≠ hole → parent i ≠ hole →
    q.precedesAt i (parent i) = false
  across : ∀ i, 0 < i → parent i = hole → 0 < hole → low ≤ parent hole →
    q.precedesAt i (parent hole) = false

/-- The entry at the hole has not to come out before the one above it. -/
def SettledAbove (q : Heap f) (low hole : Nat) : Prop :=
  0 < hole → low ≤ parent hole → q.precedesAt hole (parent hole) = false

/-- No entry below the hole has to come out before the one at the hole. -/
def SettledBelow (q : Heap f) (hole : Nat) : Prop :=
  ∀ i, 0 < i → parent i = hole → q.precedesAt i hole = false

theorem parent_lt {i : Nat} (h : 0 < i) : parent i < i := by
  unfold parent
  omega

theorem OrderedFrom.around {low : Nat} (o : q.OrderedFrom low) (n : q.Numeric) (hole : Nat) :
    q.OrderedAround low hole where
  apart i hi hlow _ _ := o i hi hlow
  across i hi hp hhole hlow := by
    rw [← Bool.not_eq_true]
    intro h
    have hlt : hole < q.entries.size := by
      have := lt_size_of_precedesAt h
      have := parent_lt hi
      omega
    have hi' : q.precedesAt i hole = false := by
      have := o i hi (by have := parent_lt hhole; omega)
      rwa [hp] at this
    rw [not_precedesAt_trans n hlt hi' (o hole hhole hlow)] at h
    cases h

/-- With the entry at the hole settled both ways nothing is out of order. -/
theorem OrderedAround.close {low hole : Nat} (o : q.OrderedAround low hole)
    (above : q.SettledAbove low hole) (below : q.SettledBelow hole) : q.OrderedFrom low := by
  intro i hi hlow
  by_cases hih : i = hole
  · subst hih
    exact above hi hlow
  · by_cases hph : parent i = hole
    · have := below i hi hph
      rwa [← hph] at this
    · exact o.apart i hi hlow hih hph

/-! ## Rising -/

/-- An entry that rises past the one above leaves a hole there. -/
theorem OrderedAround.rise {hole : Nat} (o : q.OrderedAround 0 hole) (n : q.Numeric)
    (hhole : 0 < hole) (hp : q.precedesAt hole (parent hole) = true) :
    (q.exchange hole (parent hole)).OrderedAround 0 (parent hole) ∧
      (q.exchange hole (parent hole)).SettledBelow (parent hole) := by
  have hlt := lt_size_of_precedesAt hp
  have hlt' := lt_size_right_of_precedesAt hp
  have hph := parent_lt hhole
  have above : 0 < parent hole → q.precedesAt (parent hole) (parent (parent hole)) = false :=
    fun h => o.apart (parent hole) h (Nat.zero_le _) (by omega) (by have := parent_lt h; omega)
  constructor
  · constructor
    · intro i hi _ hip hpp
      rw [precedesAt_exchange hlt hlt']
      have hih : i ≠ hole := fun h => hpp (congrArg parent h)
      rw [Equiv.swap_apply_of_ne_of_ne hih hip]
      by_cases hpi : parent i = hole
      · rw [hpi, Equiv.swap_apply_left]
        exact o.across i hi hpi hhole (Nat.zero_le _)
      · rw [Equiv.swap_apply_of_ne_of_ne hpi hpp]
        exact o.apart i hi (Nat.zero_le _) hih hpi
    · intro i hi hpi hpos _
      rw [precedesAt_exchange hlt hlt']
      have := parent_lt hpos
      rw [Equiv.swap_apply_of_ne_of_ne (a := hole) (x := parent (parent hole)) (by omega) (by omega)]
      by_cases hih : i = hole
      · rw [hih, Equiv.swap_apply_left]
        exact above hpos
      · have := parent_lt hi
        rw [Equiv.swap_apply_of_ne_of_ne hih (by omega)]
        have hip := o.apart i hi (Nat.zero_le _) hih (by omega)
        rw [hpi] at hip
        exact not_precedesAt_trans n hlt' hip (above hpos)
  · intro i hi hpi
    rw [precedesAt_exchange hlt hlt', Equiv.swap_apply_right]
    by_cases hih : i = hole
    · rw [hih, Equiv.swap_apply_left]
      exact precedesAt_asymm n hp
    · have := parent_lt hi
      rw [Equiv.swap_apply_of_ne_of_ne hih (by omega)]
      have hip := o.apart i hi (Nat.zero_le _) hih (by omega)
      rw [hpi] at hip
      exact not_precedesAt_of_precedesAt n hip hp

/-- A heap that is in order but for an entry that may have to rise is in order after it has. -/
theorem ordered_siftUp {slot : Nat} (n : q.Numeric) (o : q.OrderedAround 0 slot)
    (below : q.SettledBelow slot) : (q.siftUp slot).Ordered := by
  induction q, slot using siftUp.induct with
  | case1 q slot hslot hp ih =>
    rw [siftUp, dif_pos hslot, if_pos hp]
    obtain ⟨o', below'⟩ := o.rise n hslot hp
    have hmoved := exchange_rearranges (lt_size_of_precedesAt hp) (lt_size_right_of_precedesAt hp)
    exact ih (hmoved.numeric n) o' below'
  | case2 q slot hslot hp =>
    rw [siftUp, dif_pos hslot, if_neg hp]
    exact orderedFrom_zero.1 (o.close (fun _ _ => Bool.eq_false_iff.2 hp) below)
  | case3 q slot hslot =>
    rw [siftUp, dif_neg hslot]
    exact orderedFrom_zero.1 (o.close (fun h => absurd h hslot) below)

/-! ## Sinking -/

theorem parent_firstChild (q : Heap f) (slot : Nat) : parent (q.firstChild slot) = slot := by
  unfold firstChild parent
  split <;> omega

theorem eq_child_of_parent {i slot : Nat} (hi : 0 < i) (h : parent i = slot) :
    i = 2 * slot + 1 ∨ i = 2 * slot + 2 := by
  unfold parent at h
  omega

/-- No entry below a slot has to come out before the first one there. -/
theorem not_precedesAt_firstChild (n : q.Numeric) {i slot : Nat} (hi : 0 < i)
    (h : parent i = slot) : q.precedesAt i (q.firstChild slot) = false := by
  unfold firstChild
  split
  · rename_i hright
    rcases eq_child_of_parent hi h with rfl | rfl
    · exact precedesAt_asymm n hright
    · exact precedesAt_irrefl _
  · rename_i hleft
    rcases eq_child_of_parent hi h with rfl | rfl
    · exact precedesAt_irrefl _
    · exact Bool.eq_false_iff.2 hleft

/-- If any entry stands below a slot, the first one there does. -/
theorem firstChild_lt_size {i slot : Nat} (hi : 0 < i) (h : parent i = slot)
    (hlt : i < q.entries.size) : q.firstChild slot < q.entries.size := by
  unfold firstChild
  split
  · rename_i hright
    exact lt_size_of_precedesAt hright
  · rcases eq_child_of_parent hi h with rfl | rfl <;> omega

/-- An entry that sinks past the first one below leaves a hole there. -/
theorem OrderedAround.sink {low hole : Nat} (o : q.OrderedAround low hole) (n : q.Numeric)
    (hlow : low ≤ hole) (hp : q.precedesAt (q.firstChild hole) hole = true) :
    (q.exchange hole (q.firstChild hole)).OrderedAround low (q.firstChild hole) ∧
      (q.exchange hole (q.firstChild hole)).SettledAbove low (q.firstChild hole) := by
  have hlt := lt_size_right_of_precedesAt hp
  have hlt' := lt_size_of_precedesAt hp
  have hpc := parent_firstChild q hole
  have hgt := lt_firstChild q hole
  have hfirst := fun i (hi : 0 < i) (h : parent i = hole) => not_precedesAt_firstChild n hi h
  generalize q.firstChild hole = child at *
  constructor
  · constructor
    · intro i hi hle hic hpi
      rw [precedesAt_exchange hlt hlt']
      by_cases hih : i = hole
      · subst hih
        have := parent_lt hi
        rw [Equiv.swap_apply_left, Equiv.swap_apply_of_ne_of_ne (by omega) hpi]
        exact o.across child (by omega) hpc hi hle
      · rw [Equiv.swap_apply_of_ne_of_ne hih hic]
        by_cases hph : parent i = hole
        · rw [hph, Equiv.swap_apply_left]
          exact hfirst i hi hph
        · rw [Equiv.swap_apply_of_ne_of_ne hph hpi]
          exact o.apart i hi hle hih hph
    · intro i hi hpi hpos hle
      have := parent_lt hi
      rw [precedesAt_exchange hlt hlt', hpc, Equiv.swap_apply_left,
        Equiv.swap_apply_of_ne_of_ne (by omega) (by omega)]
      have hic := o.apart i hi (by omega) (by omega) (by omega)
      rwa [hpi] at hic
  · intro hpos hle
    rw [precedesAt_exchange hlt hlt', hpc, Equiv.swap_apply_left, Equiv.swap_apply_right]
    exact precedesAt_asymm n hp

/-- A heap that is in order but for an entry that may have to sink is in order after it has. -/
theorem orderedFrom_siftDown {low slot : Nat} (n : q.Numeric) (hlow : low ≤ slot)
    (o : q.OrderedAround low slot) (above : q.SettledAbove low slot) :
    (q.siftDown slot).OrderedFrom low := by
  induction q, slot using siftDown.induct with
  | case1 q slot hp ih =>
    rw [siftDown, dif_pos hp]
    obtain ⟨o', above'⟩ := o.sink n hlow hp
    have hmoved := exchange_rearranges (lt_size_right_of_precedesAt hp) (lt_size_of_precedesAt hp)
    have := lt_firstChild q slot
    exact ih (hmoved.numeric n) (by omega) o' above'
  | case2 q slot hp =>
    rw [siftDown, dif_neg hp]
    refine o.close above fun i hi hpi => ?_
    rw [← Bool.not_eq_true]
    intro h
    have hc := firstChild_lt_size hi hpi (lt_size_of_precedesAt h)
    rw [not_precedesAt_trans n hc (not_precedesAt_firstChild n hi hpi) (Bool.eq_false_iff.2 hp)] at h
    cases h

/-! ## Any entries -/

theorem ordered_heapify_of_orderedFrom {count : Nat} (n : q.Numeric) (o : q.OrderedFrom count) :
    (q.heapify count).Ordered := by
  induction count generalizing q with
  | zero => exact orderedFrom_zero.1 o
  | succ count ih =>
    refine ih ((siftDown_rearranges q count).numeric n) ?_
    -- nothing that counts stands above the slot that sinks
    have hnone : ∀ i, 0 < i → ¬ i ≤ parent i := fun i hi h => by
      have := parent_lt hi
      omega
    refine orderedFrom_siftDown n (Nat.le_refl _) ⟨?_, ?_⟩ ?_
    · intro i hi hle _ hne
      exact o i hi (by omega)
    · intro _ _ _ hpos hle
      exact absurd hle (hnone count hpos)
    · intro hpos hle
      exact absurd hle (hnone count hpos)

/-- Nothing stands below the slots of the second half. -/
theorem orderedFrom_half (q : Heap f) : q.OrderedFrom (q.entries.size / 2) := by
  intro i hi hle
  rw [← Bool.not_eq_true]
  intro h
  have := lt_size_of_precedesAt h
  unfold parent at hle
  omega

theorem ordered_heapify (n : q.Numeric) : (q.heapify (q.entries.size / 2)).Ordered :=
  ordered_heapify_of_orderedFrom n (orderedFrom_half q)

/-! ## The front -/

/-- No entry has to come out before the one at the front. -/
theorem Ordered.not_precedesAt_front (o : q.Ordered) (n : q.Numeric) (i : Nat) :
    q.precedesAt i 0 = false := by
  induction i using Nat.strongRecOn with
  | ind i ih =>
    by_cases hi : i = 0
    · rw [hi]
      exact precedesAt_irrefl 0
    · rw [← Bool.not_eq_true]
      intro h
      have hlt := parent_lt (Nat.pos_of_ne_zero hi)
      have hsize := lt_size_of_precedesAt h
      rw [not_precedesAt_trans n (by omega) (o i (Nat.pos_of_ne_zero hi)) (ih _ hlt)] at h
      cases h

end Heap

end BranchBound
