/-
The store of cells told by its history. A history lists what the requests to a store did, the latest
first. It tells the cell of a handle (`latest`): that of its latest insertion, with the number of
insertions before it, unless the handle was removed or the store cleared since; and so the handles in
use (`live`) and the most that were in use at once since the last clearing (`peak`). Main statement
(`answers_by_history`): every list of requests to a store without cells is served, and what the store
then shows and answers is what the history tells. A store has no more slots than cells that were
pending at once, since every slot holds a cell or is free (`Filled`).
-/
import BranchBound.Proofs.CellStore
import Mathlib.Data.Finset.Card

namespace BranchBound

namespace CellStore

variable {f : Format} {s s' : CellStore f}

/-! ## Requests and histories -/

/-- A request to a store. -/
inductive Request (f : Format) where
  | insert (cell : Cell f)
  | remove (handle : CellHandle)
  | clear

/-- What a request did. -/
inductive Deed (f : Format) where
  /-- A cell was put in under a handle. -/
  | inserted (handle : CellHandle) (cell : Cell f)
  /-- The cell of a handle was taken out, if there was one. -/
  | removed (handle : CellHandle) (cell : Option (Cell f))
  /-- So many cells were dropped. -/
  | cleared (dropped : Nat)
  deriving DecidableEq

/-- Serves a request. -/
def serve (s : CellStore f) : Request f → Except Fault (CellStore f × Deed f)
  | .insert cell => (s.insert cell).map fun (s, handle) => (s, .inserted handle cell)
  | .remove handle =>
    match s.remove handle with
    | some (cell, s) => .ok (s, .removed handle (some cell))
    | none => .ok (s, .removed handle none)
  | .clear => .ok (s.clear, .cleared s.size)

/-- Serves requests one after the other, and puts what they did before a history. -/
def serveAll (s : CellStore f) (history : List (Deed f)) :
    List (Request f) → Except Fault (CellStore f × List (Deed f))
  | [] => .ok (s, history)
  | request :: rest => do
    let (s, deed) ← s.serve request
    s.serveAll (deed :: history) rest

/-- The number of insertions in a history. -/
def insertions : List (Deed f) → Nat
  | [] => 0
  | .inserted _ _ :: earlier => insertions earlier + 1
  | .removed _ _ :: earlier | .cleared _ :: earlier => insertions earlier

/-- The cell of the latest insertion under a handle with the number of insertions before it, if the
handle was not removed and the store not cleared since. -/
def latest (handle : CellHandle) : List (Deed f) → Option (Stored f)
  | [] => none
  | .inserted handle' cell :: earlier =>
    if handle = handle' then some ⟨cell, insertions earlier⟩ else latest handle earlier
  | .removed handle' _ :: earlier => if handle = handle' then none else latest handle earlier
  | .cleared _ :: _ => none

/-- The handles in use after a history. -/
def live : List (Deed f) → Finset CellHandle
  | [] => ∅
  | .inserted handle _ :: earlier => {handle} ∪ live earlier
  | .removed handle _ :: earlier => (live earlier).erase handle
  | .cleared _ :: _ => ∅

/-- The most handles in use at once since the last clearing. -/
def peak : List (Deed f) → Nat
  | [] => 0
  | .cleared _ :: _ => 0
  | deed :: earlier => max (live (deed :: earlier)).card (peak earlier)

theorem mem_live_iff {handle : CellHandle} {history : List (Deed f)} :
    handle ∈ live history ↔ (latest handle history).isSome := by
  induction history with
  | nil => simp [live, latest]
  | cons deed earlier ih =>
    cases deed with
    | inserted handle' cell => by_cases h : handle = handle' <;> simp [live, latest, h, ih]
    | removed handle' cell => by_cases h : handle = handle' <;> simp [live, latest, h, ih]
    | cleared dropped => simp [live, latest]

theorem card_live_le_peak (history : List (Deed f)) : (live history).card ≤ peak history := by
  cases history with
  | nil => exact Nat.le_refl _
  | cons deed earlier =>
    cases deed with
    | inserted handle cell => exact Nat.le_max_left ..
    | removed handle cell => exact Nat.le_max_left ..
    | cleared dropped => exact Nat.le_refl _

/-- The numbers of the latest insertions are below that of all insertions. -/
theorem seq_latest_lt {handle : CellHandle} {history : List (Deed f)} {stored : Stored f}
    (h : latest handle history = some stored) : stored.seq < insertions history := by
  induction history with
  | nil => cases h
  | cons deed earlier ih =>
    cases deed with
    | inserted handle' cell =>
      unfold latest at h
      split at h
      · cases h
        exact Nat.lt_succ_self _
      · exact Nat.lt_succ_of_lt (ih h)
    | removed handle' cell =>
      unfold latest at h
      split at h
      · cases h
      · exact ih h
    | cleared dropped => cases h

/-- No two handles have the number of one insertion. -/
theorem eq_of_seq_latest {handle handle' : CellHandle} {history : List (Deed f)}
    {stored stored' : Stored f} (h : latest handle history = some stored)
    (h' : latest handle' history = some stored') (heq : stored.seq = stored'.seq) :
    handle = handle' := by
  induction history with
  | nil => cases h
  | cons deed earlier ih =>
    cases deed with
    | inserted inserted cell =>
      unfold latest at h h'
      split at h
      · rename_i hfirst
        split at h'
        · rename_i hsecond
          exact hfirst.trans hsecond.symm
        · cases h
          exact absurd heq (Nat.ne_of_gt (seq_latest_lt h'))
      · split at h'
        · cases h'
          exact absurd heq (Nat.ne_of_lt (seq_latest_lt h))
        · exact ih h h'
    | removed removed cell =>
      unfold latest at h h'
      split at h
      · cases h
      · split at h'
        · cases h'
        · exact ih h h'
    | cleared dropped => cases h

/-! ## Slots -/

/-- Every slot holds a cell or is free. -/
def Filled (s : CellStore f) : Prop := s.slots.size = s.size + s.free.length

/-- There are new slots only for cells that find none free. -/
theorem Filled.insert (filled : s.Filled) {cell : Cell f} {handle : CellHandle}
    (hinsert : s.insert cell = .ok (s', handle)) :
    s'.Filled ∧ s'.slots.size = max s'.size s.slots.size := by
  unfold Filled at filled ⊢
  unfold CellStore.insert at hinsert
  cases hfree : s.free with
  | nil =>
    rw [hfree] at hinsert filled
    cases hinsert
    simp only [Array.size_push, List.length_nil] at filled ⊢
    omega
  | cons slot free =>
    rw [hfree] at filled
    simp only [hfree] at hinsert
    split at hinsert
    · cases hinsert
    · cases hinsert
      simp only [Array.size_setIfInBounds, List.length_cons] at filled ⊢
      omega

theorem erase_eq_self {handle : CellHandle} (h : s.stored? handle = none) :
    s.erase handle = s := by
  unfold erase remove
  rw [h]
  rfl

/-- A cell taken out leaves its slot. -/
theorem Filled.erase (filled : s.Filled) (sound : s.Sound) (handle : CellHandle) :
    (s.erase handle).Filled ∧ (s.erase handle).slots.size = s.slots.size := by
  cases hstored : s.stored? handle with
  | none =>
    rw [erase_eq_self hstored]
    exact ⟨filled, rfl⟩
  | some stored =>
    have hmem : ⟨handle, stored.cell, stored.seq⟩ ∈ s.pending := mem_pending_iff.2 hstored
    have hpos : 0 < s.size := sound.size ▸ List.length_pos_of_mem hmem
    have heq : s.erase handle = { s with
        slots := s.slots.setIfInBounds handle.val none
        free := handle.val :: s.free
        size := s.size - 1 } := by
      unfold CellStore.erase remove
      rw [hstored]
      rfl
    unfold Filled at filled ⊢
    rw [heq]
    simp only [Array.size_setIfInBounds, List.length_cons, and_true]
    omega

/-! ## What a store shows -/

theorem stored?_eq_some_iff_mem {handle : CellHandle} {stored : Stored f} :
    s.stored? handle = some stored ↔ ⟨handle, stored.cell, stored.seq⟩ ∈ s.pending :=
  (mem_pending_iff (p := ⟨handle, stored.cell, stored.seq⟩)).symm

theorem stored?_of_perm_cons {p : Pending f} (hperm : s'.pending.Perm (p :: s.pending))
    (handle : CellHandle) :
    s'.stored? handle = if handle = p.handle then some ⟨p.cell, p.seq⟩ else s.stored? handle := by
  split
  · rename_i heq
    subst heq
    exact mem_pending_iff.1 (hperm.symm.subset List.mem_cons_self)
  · rename_i hne
    refine Option.ext fun stored => ?_
    rw [stored?_eq_some_iff_mem, stored?_eq_some_iff_mem, hperm.mem_iff, List.mem_cons]
    constructor
    · rintro (heq | h)
      · exact absurd (congrArg Pending.handle heq) hne
      · exact h
    · exact .inr

theorem stored?_of_filter {handle' : CellHandle}
    (hpending : s'.pending = s.pending.filter fun p => p.handle ≠ handle') (handle : CellHandle) :
    s'.stored? handle = if handle = handle' then none else s.stored? handle := by
  refine Option.ext fun stored => ?_
  rw [stored?_eq_some_iff_mem, hpending, List.mem_filter, decide_eq_true_iff,
    ← stored?_eq_some_iff_mem]
  split
  · rename_i heq
    exact iff_of_false (fun h => h.2 heq) nofun
  · rename_i hne
    exact and_iff_left hne

/-! ## One request -/

/-- A cell with its number as far as the counter goes. -/
def counted (stored : Stored f) : Stored f := { stored with seq := min stored.seq Counter.limit }

/-- What the history before a request tells of its outcome. -/
def Answers (history : List (Deed f)) : Request f → Deed f → Prop
  | .insert cell, deed => ∃ handle, deed = .inserted handle cell ∧ handle ∉ live history
  | .remove handle, deed => deed = .removed handle ((latest handle history).map (·.cell))
  | .clear, deed => deed = .cleared (live history).card

/-- A store in which everything is as a history tells. -/
structure Recounted (s : CellStore f) (history : List (Deed f)) : Prop where
  sound : s.Sound
  filled : s.Filled
  next : s.nextSeq = min (insertions history) Counter.limit
  stored : ∀ handle, s.stored? handle = (latest handle history).map counted
  places : s.slots.size = peak history

section Shown

variable {history : List (Deed f)}

theorem mem_live_iff_stored (stored : ∀ handle, s.stored? handle = (latest handle history).map counted)
    (handle : CellHandle) : handle ∈ live history ↔ ∃ p ∈ s.pending, p.handle = handle := by
  rw [mem_live_iff, ← contains_iff, contains, stored, Option.isSome_map]

theorem size_eq_card_live (sound : s.Sound)
    (stored : ∀ handle, s.stored? handle = (latest handle history).map counted) :
    s.size = (live history).card := by
  have hlive : live history = (s.pending.map (·.handle)).toFinset := by
    ext handle
    rw [mem_live_iff_stored stored, List.mem_toFinset, List.mem_map]
  rw [hlive, List.toFinset_card_of_nodup s.handles_nodup, List.length_map, sound.size]

theorem recounted_empty : (empty : CellStore f).Recounted [] where
  sound := sound_empty
  filled := rfl
  next := rfl
  stored _ := rfl
  places := rfl

namespace Recounted

theorem size (r : s.Recounted history) : s.size = (live history).card :=
  size_eq_card_live r.sound r.stored

theorem contains_iff (r : s.Recounted history) {handle : CellHandle} :
    s.contains handle = true ↔ handle ∈ live history := by
  rw [mem_live_iff_stored r.stored, CellStore.contains_iff]

theorem get?_eq (r : s.Recounted history) (handle : CellHandle) :
    s.get? handle = (latest handle history).map (·.cell) := by
  rw [get?, r.stored, Option.map_map]
  rfl

theorem insert (r : s.Recounted history) (cell : Cell f) :
    ∃ s' handle, s.insert cell = .ok (s', handle) ∧ handle ∉ live history ∧
      s'.Recounted (.inserted handle cell :: history) := by
  obtain ⟨s', handle, hinsert, sound, fresh, hperm, hnext⟩ := insert_spec r.sound cell
  obtain ⟨filled, hslots⟩ := r.filled.insert hinsert
  have stored : ∀ handle', s'.stored? handle' =
      (latest handle' (.inserted handle cell :: history)).map counted := by
    intro handle'
    rw [stored?_of_perm_cons hperm, latest, r.stored, r.next]
    split <;> rfl
  refine ⟨s', handle, hinsert, ?_, sound, filled, ?_, stored, ?_⟩
  · rw [← r.contains_iff, fresh]
    exact Bool.false_ne_true
  · rw [hnext, r.next, insertions, Counter.raise]
    omega
  · rw [hslots, size_eq_card_live sound stored, r.places]
    rfl

theorem erase (r : s.Recounted history) (handle : CellHandle) :
    (s.erase handle).Recounted (.removed handle (s.get? handle) :: history) := by
  obtain ⟨sound, hpending, hnext⟩ := erase_spec r.sound handle
  obtain ⟨filled, hslots⟩ := r.filled.erase r.sound handle
  refine ⟨sound, filled, hnext.trans r.next, fun handle' => ?_, ?_⟩
  · rw [stored?_of_filter hpending, latest, r.stored]
    split <;> rfl
  · -- what is taken away does not add to the most that were in use
    have hcard : ((live history).erase handle).card ≤ peak history :=
      Finset.card_erase_le.trans (card_live_le_peak history)
    rw [hslots, r.places]
    exact (Nat.max_eq_right hcard).symm

theorem clear (r : s.Recounted history) : s.clear.Recounted (.cleared s.size :: history) where
  sound := .clear s
  filled := rfl
  next := r.next
  stored _ := rfl
  places := rfl

/-- A handle that is not in use is removed without effect. -/
theorem serve_remove_of_notMem (r : s.Recounted history) {handle : CellHandle}
    (h : handle ∉ live history) : s.serve (.remove handle) = .ok (s, .removed handle none) := by
  have hremove : s.remove handle = none := by
    rw [← r.contains_iff, contains, Option.not_isSome_iff_eq_none] at h
    rw [remove, h, Option.map_none]
  simp only [serve, hremove]

theorem serve_remove (r : s.Recounted history) (handle : CellHandle) :
    s.serve (.remove handle) = .ok (s.erase handle, .removed handle (s.get? handle)) := by
  cases hstored : s.stored? handle with
  | none =>
    have hnot : handle ∉ live history := by
      rw [← r.contains_iff, contains, hstored]
      exact Bool.false_ne_true
    rw [r.serve_remove_of_notMem hnot, erase_eq_self hstored, get?, hstored, Option.map_none]
  | some stored =>
    simp only [serve, remove_eq hstored, get?, hstored, Option.map_some]

/-- Every request is served as the history tells, which then goes on to tell everything. -/
theorem serve (r : s.Recounted history) (request : Request f) :
    ∃ s' deed, s.serve request = .ok (s', deed) ∧ Answers history request deed ∧
      s'.Recounted (deed :: history) := by
  cases request with
  | insert cell =>
    obtain ⟨s', handle, hinsert, fresh, r'⟩ := r.insert cell
    refine ⟨s', .inserted handle cell, ?_, ⟨handle, rfl, fresh⟩, r'⟩
    rw [CellStore.serve, hinsert]
    rfl
  | remove handle =>
    refine ⟨_, _, r.serve_remove handle, ?_, r.erase handle⟩
    exact congrArg (Deed.removed handle) (r.get?_eq handle)
  | clear => exact ⟨_, _, rfl, congrArg Deed.cleared r.size, r.clear⟩

/-- So do all requests one after the other. -/
theorem serveAll (r : s.Recounted history) (requests : List (Request f)) :
    ∃ s' history', s.serveAll history requests = .ok (s', history') ∧ s'.Recounted history' := by
  induction requests generalizing s history with
  | nil => exact ⟨s, history, rfl, r⟩
  | cons request rest ih =>
    obtain ⟨s', deed, hserve, _, r'⟩ := r.serve request
    obtain ⟨s'', history', hrest, r''⟩ := ih r'
    refine ⟨s'', history', ?_, r''⟩
    rw [CellStore.serveAll, hserve]
    exact hrest

/-- Below the limit of the counter the numbers are those of the history. -/
theorem stored?_eq (r : s.Recounted history) (few : insertions history ≤ UInt64.size)
    (handle : CellHandle) : s.stored? handle = latest handle history := by
  rw [r.stored]
  cases hlatest : latest handle history with
  | none => rfl
  | some stored =>
    have hlimit : stored.seq ≤ Counter.limit :=
      Nat.le_sub_one_of_lt ((seq_latest_lt hlatest).trans_le few)
    rw [Option.map_some, counted, Nat.min_eq_left hlimit]

theorem nodup_seq (r : s.Recounted history) (few : insertions history ≤ UInt64.size) :
    (s.pending.map (·.seq)).Nodup := by
  refine List.Nodup.map_on (fun p hp p' hp' heq => ?_) (List.Nodup.of_map _ s.handles_nodup)
  have h := (r.stored?_eq few p.handle).symm.trans (mem_pending_iff.1 hp)
  have h' := (r.stored?_eq few p'.handle).symm.trans (mem_pending_iff.1 hp')
  exact pending_inj hp hp' (eq_of_seq_latest h h' heq)

end Recounted

end Shown

/-! ## All requests -/

/-- What a store shows and answers is what a history tells. -/
structure ToldBy (s : CellStore f) (history : List (Deed f)) : Prop where
  /-- Every request is served: an insertion under a handle not in use, a removal with the cell of the
  handle, and a clearing with the number of the cells. -/
  answers : ∀ request, ∃ s' deed, s.serve request = .ok (s', deed) ∧ Answers history request deed
  /-- A handle not in use is removed without effect. -/
  idle : ∀ handle, handle ∉ live history → s.serve (.remove handle) = .ok (s, .removed handle none)
  get : ∀ handle, s.get? handle = (latest handle history).map (·.cell)
  seq : ∀ handle, s.seq? handle = (latest handle history).map fun stored => min stored.seq Counter.limit
  contains : ∀ handle, s.contains handle = true ↔ handle ∈ live history
  size : s.size = (live history).card
  /-- The handles in use are listed upwards, each once, with what is stored under them. -/
  ascending : s.pending.Pairwise fun p p' => p.handle.val < p'.handle.val
  listed : ∀ handle cell seq,
    ⟨handle, cell, seq⟩ ∈ s.pending ↔ s.get? handle = some cell ∧ s.seq? handle = some seq
  /-- There are as many slots as handles were in use at once since the last clearing. -/
  bound : s.handleBound = peak history
  /-- Up to the limit of the counter every insertion has the number of those before it, so that no two
  cells have one number. -/
  numbered : insertions history ≤ UInt64.size →
    (∀ handle, s.seq? handle = (latest handle history).map (·.seq)) ∧
      (s.pending.map (·.seq)).Nodup

theorem Recounted.toldBy {history : List (Deed f)} (r : s.Recounted history) : s.ToldBy history where
  answers request := by
    obtain ⟨s', deed, hserve, answers, _⟩ := r.serve request
    exact ⟨s', deed, hserve, answers⟩
  idle _ := r.serve_remove_of_notMem
  get := r.get?_eq
  seq handle := by
    rw [seq?, r.stored, Option.map_map]
    rfl
  contains _ := r.contains_iff
  size := r.size
  ascending := occupants_pairwise 0 s.slots.toList
  listed handle cell seq := by
    rw [mem_pending_iff, get?, seq?]
    cases s.stored? handle with
    | none => exact iff_of_false nofun nofun
    | some stored => cases stored; simp
  bound := r.places
  numbered few := by
    refine ⟨fun handle => ?_, r.nodup_seq few⟩
    rw [seq?, r.stored?_eq few]

theorem eq_empty_of_withRoom {slots : Nat} (h : withRoom slots = .ok s) : s = empty := by
  unfold withRoom at h
  cases hroom : Room.reserve slots (slotBytes f) with
  | error fault =>
    rw [hroom] at h
    cases h
  | ok _ =>
    rw [hroom] at h
    cases h
    rfl

/-- Every list of requests to a store without cells is served, and leaves a store in which everything
is as the history of what they did tells. -/
theorem answers_by_history {start : CellStore f}
    (made : start = empty ∨ ∃ slots, withRoom slots = .ok start) (requests : List (Request f)) :
    ∃ s history, start.serveAll [] requests = .ok (s, history) ∧ s.ToldBy history := by
  have hstart : start = empty := by
    rcases made with rfl | ⟨_, hroom⟩
    · rfl
    · exact eq_empty_of_withRoom hroom
  subst hstart
  obtain ⟨s, history, hserved, r⟩ := recounted_empty.serveAll requests
  exact ⟨s, history, hserved, r.toldBy⟩

/-- A handle used twice, one removed that was never in use, and a clearing on the way. -/
theorem answers_by_history_reuse :
    let cell (dimension : Nat) : Cell .binary64 := .ofRegion (.entire dimension)
    let requests : List (Request .binary64) :=
      [.insert (cell 1), .clear, .insert (cell 2), .insert (cell 3), .remove ⟨0⟩, .remove ⟨7⟩,
        .insert (cell 4)]
    ∃ start s : CellStore .binary64, ∃ history, withRoom 3 = .ok start ∧
      start.serveAll [] requests = .ok (s, history) ∧ s.get? ⟨0⟩ = some (cell 4) ∧
      s.seq? ⟨0⟩ = some 3 ∧ s.handleBound = 2 ∧ s.size = 2 ∧ (s.pending.map (·.seq)).Nodup := by
  intro cell requests
  have made : withRoom 3 = .ok (empty : CellStore .binary64) := rfl
  obtain ⟨s, history, hserved, told⟩ := answers_by_history (.inr ⟨3, made⟩) requests
  have hhistory : history = [.inserted ⟨0⟩ (cell 4), .removed ⟨7⟩ none, .removed ⟨0⟩ (some (cell 2)),
      .inserted ⟨1⟩ (cell 3), .inserted ⟨0⟩ (cell 2), .cleared 1, .inserted ⟨0⟩ (cell 1)] := by
    have hall : ((empty : CellStore .binary64).serveAll [] requests).map (·.2) = .ok
        [.inserted ⟨0⟩ (cell 4), .removed ⟨7⟩ none, .removed ⟨0⟩ (some (cell 2)),
          .inserted ⟨1⟩ (cell 3), .inserted ⟨0⟩ (cell 2), .cleared 1, .inserted ⟨0⟩ (cell 1)] := by
      decide +kernel
    rw [hserved] at hall
    exact Except.ok.inj hall
  subst hhistory
  obtain ⟨numbers, distinct⟩ := told.numbered (by decide)
  exact ⟨empty, s, _, made, hserved, (told.get _).trans rfl, (numbers _).trans rfl,
    told.bound.trans rfl, told.size.trans rfl, distinct⟩

end CellStore

end BranchBound
