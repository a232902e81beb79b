/-
A queue of handles from outside as a finite map. A request to the queue changes a map from handles
to costs and sequence numbers in the obvious way (`CellMap.after`). Main statement
(`Heap.implements_map`): in every state that requests lead to (`Heap.Reached`) the check of the queue
finds nothing, what it shows agrees with the map, its front is a least key, and every further request
is served and answered as the map tells. The requests have to be admitted: costs are numbers, no
handle is queued twice, and the handles are below a limit, which no more of them may be queued than
there can be slots for. The limits are those of arrays that grow (`Room.growable`): the table of the
queue has a place for every handle up to the largest. Below them there is always room; beyond them it
depends on the handles that came before (`refuses_larger`).
-/
import BranchBound.Heap.Offer
import BranchBound.Proofs.Heap.Check
import BranchBound.Proofs.Heap.Drained
import Mathlib.Data.Finmap

namespace BranchBound

variable {f : Format}

/-- Handles with their costs and sequence numbers. -/
abbrev CellMap (f : Format) : Type := Finmap fun _ : CellHandle => Binary f × Nat

/-- A request to a queue. -/
inductive Heap.Request (f : Format) where
  | push (entry : HeapEntry f)
  | pop
  | remove (handle : CellHandle)
  | rebuild (entries : List (HeapEntry f))
  | clear

/-- What a request is answered. -/
inductive Heap.Reply where
  | unit
  /-- The handle at the front, if there is one. -/
  | front (handle : Option CellHandle)
  | removed (queued : Bool)
  deriving DecidableEq

/-- An entry does not precede another one if its cost is greater, or its cost is the same number and
its sequence number no less. -/
theorem HeapEntry.not_precedes_iff {a b : HeapEntry f} (ha : a.cost.isNaN = false)
    (hb : b.cost.isNaN = false) :
    a.precedes b = false ↔ b.cost < a.cost ∨ (b.cost.equals a.cost = true ∧ b.seq ≤ a.seq) := by
  obtain ⟨x, hx⟩ := Binary.exists_place ha
  obtain ⟨y, hy⟩ := Binary.exists_place hb
  have hequals : b.cost.equals a.cost = true ↔ y = x := by
    rw [Binary.equals_iff, hx, hy]
    simp [eq_comm]
  rw [← Bool.not_eq_true, precedes_iff hx hy, Binary.lt_iff_of_place hy hx, hequals]
  omega

/-! ## Maps -/

namespace CellMap

variable {m : CellMap f}

/-- The map of some entries. -/
def ofEntries (entries : List (HeapEntry f)) : CellMap f :=
  entries.foldr (fun e m => m.insert e.handle (e.cost, e.seq)) ∅

/-- The map after a request that was answered. -/
def after (m : CellMap f) : Heap.Request f → Heap.Reply → CellMap f
  | .push e, _ => m.insert e.handle (e.cost, e.seq)
  | .pop, .front (some h) => m.erase h
  | .pop, _ => m
  | .remove h, _ => m.erase h
  | .rebuild entries, _ => ofEntries entries
  | .clear, _ => ∅

/-- The key is a least one: by cost, and by sequence number where the costs are the same number. -/
def IsLeast (m : CellMap f) (h : CellHandle) : Prop :=
  ∃ cost seq, m.lookup h = some (cost, seq) ∧
    ∀ h' cost' seq', m.lookup h' = some (cost', seq') →
      cost < cost' ∨ (cost.equals cost' = true ∧ seq ≤ seq')

/-- No two keys have one sequence number. -/
def DistinctSeqs (m : CellMap f) : Prop :=
  ∀ h h' cost cost' seq, m.lookup h = some (cost, seq) → m.lookup h' = some (cost', seq) → h = h'

/-- A request whose costs are numbers, and whose handles are below a limit and not queued twice. -/
def Admits (limit : Nat) (m : CellMap f) : Heap.Request f → Prop
  | .push e => e.handle ∉ m ∧ e.cost.isNaN = false ∧ e.handle.val < limit
  | .rebuild entries => (entries.map (·.handle)).Nodup ∧
      ∀ e ∈ entries, e.cost.isNaN = false ∧ e.handle.val < limit
  | _ => True

instance (limit : Nat) (m : CellMap f) : (request : Heap.Request f) →
    Decidable (m.Admits limit request)
  | .push _ => inferInstanceAs (Decidable (_ ∧ _ ∧ _))
  | .rebuild _ => inferInstanceAs (Decidable (_ ∧ _))
  | .pop | .remove _ | .clear => inferInstanceAs (Decidable True)

/-- A request after which there are no more keys than a limit. -/
def Within (limit : Nat) (m : CellMap f) : Heap.Request f → Prop
  | .push _ => m.keys.card < limit
  | .rebuild entries => entries.length ≤ limit
  | _ => True

instance (limit : Nat) (m : CellMap f) : (request : Heap.Request f) →
    Decidable (m.Within limit request)
  | .push _ => inferInstanceAs (Decidable (m.keys.card < limit))
  | .rebuild entries => inferInstanceAs (Decidable (entries.length ≤ limit))
  | .pop | .remove _ | .clear => inferInstanceAs (Decidable True)

/-- The reply to a request is right. -/
def Answers (m : CellMap f) : Heap.Request f → Heap.Reply → Prop
  | .pop, reply => (m = ∅ ∧ reply = .front none) ∨ ∃ h, reply = .front (some h) ∧ m.IsLeast h
  | .remove h, reply => reply = .removed (decide (h ∈ m))
  | _, reply => reply = .unit

theorem entry_eq_iff {h : CellHandle} {cost : Binary f} {seq : Nat} {e : HeapEntry f} :
    ⟨cost, seq, h⟩ = e ↔ h = e.handle ∧ (cost, seq) = (e.cost, e.seq) := by
  constructor
  · rintro rfl
    exact ⟨rfl, rfl⟩
  · rintro ⟨rfl, hvalue⟩
    obtain ⟨rfl, rfl⟩ := Prod.mk.inj hvalue
    rfl

theorem lookup_insert_iff {h h' : CellHandle} {v v' : Binary f × Nat} (fresh : h ∉ m) :
    (m.insert h v).lookup h' = some v' ↔ (h' = h ∧ v' = v) ∨ m.lookup h' = some v' := by
  by_cases heq : h' = h
  · subst heq
    have hnone : m.lookup h' = none := Finmap.lookup_eq_none.2 fresh
    simp [hnone, eq_comm]
  · simp [heq, Finmap.lookup_insert_of_ne]

theorem lookup_erase_iff {h h' : CellHandle} {v : Binary f × Nat} :
    (m.erase h).lookup h' = some v ↔ h' ≠ h ∧ m.lookup h' = some v := by
  by_cases heq : h' = h
  · subst heq
    simp
  · simp [heq]

/-- The map of entries with different handles has just these. -/
theorem lookup_ofEntries_iff {entries : List (HeapEntry f)}
    (nodup : (entries.map (·.handle)).Nodup) {h : CellHandle} {cost : Binary f} {seq : Nat} :
    (ofEntries entries).lookup h = some (cost, seq) ↔ ⟨cost, seq, h⟩ ∈ entries := by
  induction entries generalizing h cost seq with
  | nil => exact iff_of_false nofun nofun
  | cons e rest ih =>
    obtain ⟨hfresh, hrest⟩ := List.nodup_cons.1 nodup
    have fresh : e.handle ∉ ofEntries rest := by
      rw [Finmap.mem_iff]
      rintro ⟨⟨cost', seq'⟩, hlookup⟩
      exact hfresh (List.mem_map.2 ⟨_, (ih hrest).1 hlookup, rfl⟩)
    rw [ofEntries, List.foldr_cons, ← ofEntries, lookup_insert_iff fresh, ih hrest, List.mem_cons,
      entry_eq_iff]

end CellMap

namespace Heap

variable {q : Heap f} {m : CellMap f}

/-- Serves a request. -/
def Roomy.serve (r : Roomy f) : Request f → Except Refusal (Roomy f × Reply)
  | .push entry => (r.offer entry).map fun r => (r, .unit)
  | .pop => .ok (r.refill r.queue.pop, .front (r.queue.peek?.map (·.handle)))
  | .remove h => .ok (r.refill (r.queue.erase h), .removed (r.queue.contains h))
  | .rebuild entries => (r.rebuild entries).map fun r => (r, .unit)
  | .clear => .ok (r.refill empty, .unit)

/-- The queue and the map that some list of admitted requests leads to. -/
inductive Reached (places slots : Nat) : Roomy f → CellMap f → Prop
  | empty : Reached places slots {} ∅
  | step {r r' : Roomy f} {m : CellMap f} {request : Request f} {reply : Reply}
      (reached : Reached places slots r m) (admitted : m.Admits places request)
      (within : m.Within slots request) (served : r.serve request = .ok (r', reply)) :
      Reached places slots r' (m.after request reply)

/-! ## Room -/

/-- The most handles for which a table can be given places. -/
def placeLimit : Nat := Room.growable placeBytes

/-- The most entries for which there can be slots. -/
def slotLimit : Nat := Room.growable entryBytes

theorem slotsFor_eq_ok {count : Nat} (h : count ≤ slotLimit) (slots : Nat) :
    ∃ slots', slotsFor slots count = .ok slots' := by
  obtain ⟨slots', hslots⟩ := (Room.extend_iff (by decide) (by decide)).2 h slots
  exact ⟨slots', by rw [slotsFor, hslots]; rfl⟩

theorem placesFor_eq_ok {h : CellHandle} (hlt : h.val < placeLimit) (places : Nat) :
    ∃ places', placesFor places h = .ok places' := by
  have hwords : placeLimit < UInt64.size := by decide
  obtain ⟨places', hplaces⟩ := (Room.extend_iff (by decide) (by decide)).2 hlt places
  exact ⟨places', by rw [placesFor, if_pos (Nat.lt_of_le_of_lt hlt hwords), hplaces]; rfl⟩

/-- The first table is as long as it has to be. -/
theorem placesFor_zero {h : CellHandle} (hfour : 4 ≤ h.val + 1)
    (hfits : (h.val + 1) * placeBytes ≤ Room.limit) : placesFor 0 h = .ok (h.val + 1) := by
  have hword : h.val + 1 < UInt64.size := by
    simp only [placeBytes, Room.limit, UInt64.size] at hfits ⊢
    omega
  have hgrown : Room.grown 0 (h.val + 1) = h.val + 1 := by
    unfold Room.grown
    omega
  unfold placesFor Room.extend Room.reserve
  rw [if_pos hword, if_neg (by omega), hgrown, if_pos hfits]
  rfl

/-- A table that is longer than `placeLimit` cannot have twice as many places. -/
theorem placesFor_eq_error {places : Nat} {h : CellHandle} (hfull : placeLimit < places)
    (hbeyond : places ≤ h.val) : ∃ refusal, placesFor places h = .error refusal := by
  have htwice : 2 * places ≤ Room.grown places (h.val + 1) :=
    Nat.le_trans (Nat.le_max_left ..) (Nat.le_max_left ..)
  have hlong : ¬ Room.grown places (h.val + 1) * placeBytes ≤ Room.limit := by
    simp only [placeLimit, Room.growable, placeBytes, Room.limit, UInt64.size] at hfull ⊢
    omega
  unfold placesFor
  split
  · cases hextend : Room.extend places (h.val + 1) placeBytes with
    | ok places' => exact absurd ((Room.extend_iff_of_lt (by omega)).1 ⟨_, hextend⟩) hlong
    | error cause => exact ⟨.noRoom cause, rfl⟩
  · exact ⟨.uncountable, rfl⟩

/-- All of the entries can be placed if no handle is too large. -/
theorem placeable_eq {entries : List (HeapEntry f)} (h : ∀ e ∈ entries, e.handle.val < placeLimit)
    (places : Nat) : ∃ places', placeable places entries = (entries, .ok places') := by
  induction entries generalizing places with
  | nil => exact ⟨places, rfl⟩
  | cons e rest ih =>
    obtain ⟨he, hrest⟩ := List.forall_mem_cons.1 h
    obtain ⟨places', hplaces⟩ := placesFor_eq_ok he places
    obtain ⟨places'', hplaced⟩ := ih hrest places'
    refine ⟨places'', ?_⟩
    unfold placeable
    rw [hplaces]
    show (e :: (placeable places' rest).1, (placeable places' rest).2) = _
    rw [hplaced]

namespace Roomy

variable {r : Roomy f}

/-- With room for an entry the queue takes it as it would have. -/
theorem offer_eq {e : HeapEntry f} {q' : Heap f} {slots places : Nat}
    (fresh : r.queue.contains e.handle = false) (hpush : r.queue.push e = .ok q')
    (hslots : slotsFor r.slots (r.queue.size + 1) = .ok slots)
    (hplaces : placesFor r.places e.handle = .ok places) :
    r.offer e = .ok ⟨q', slots, places⟩ := by
  unfold offer
  rw [fresh, hslots, hplaces, hpush]
  rfl

theorem offer_eq_ok {e : HeapEntry f} {q' : Heap f} (hplace : e.handle.val < placeLimit)
    (hslot : r.queue.size < slotLimit) (fresh : r.queue.contains e.handle = false)
    (hpush : r.queue.push e = .ok q') : ∃ r', r.offer e = .ok r' ∧ r'.queue = q' := by
  obtain ⟨slots, hslots⟩ := slotsFor_eq_ok hslot r.slots
  obtain ⟨places, hplaces⟩ := placesFor_eq_ok hplace r.places
  exact ⟨_, offer_eq fresh hpush hslots hplaces, rfl⟩

/-- A table with places for more handles than `placeLimit` says takes no handle beyond them. -/
theorem offer_full {e : HeapEntry f} (hfull : placeLimit < r.places)
    (hbeyond : r.places ≤ e.handle.val) : ∃ refusal, r.offer e = .error refusal := by
  obtain ⟨refusal, hplaces⟩ := placesFor_eq_error hfull hbeyond
  unfold offer
  split
  · exact ⟨_, rfl⟩
  · cases hslots : slotsFor r.slots (r.queue.size + 1) with
    | error refusal' => exact ⟨refusal', rfl⟩
    | ok slots =>
      rw [hplaces]
      exact ⟨refusal, rfl⟩

theorem rebuild_eq_ok {entries : List (HeapEntry f)} {q' : Heap f}
    (hplace : ∀ e ∈ entries, e.handle.val < placeLimit) (hslot : entries.length ≤ slotLimit)
    (hof : ofEntries entries = .ok q') : ∃ r', r.rebuild entries = .ok r' ∧ r'.queue = q' := by
  obtain ⟨slots, hslots⟩ := slotsFor_eq_ok hslot r.slots
  obtain ⟨places, hplaced⟩ := placeable_eq hplace r.places
  refine ⟨⟨q', slots, places⟩, ?_, rfl⟩
  unfold rebuild
  rw [hslots, hplaced, hof]
  rfl

end Roomy

/-! ## One request -/

/-- A sound queue with the keys of a map. -/
structure Represents (q : Heap f) (m : CellMap f) : Prop where
  sound : q.Sound
  lookup : ∀ h cost seq, m.lookup h = some (cost, seq) ↔ ⟨cost, seq, h⟩ ∈ q.entries.toList

namespace Represents

theorem mem_iff (r : q.Represents m) {h : CellHandle} :
    h ∈ m ↔ ∃ e ∈ q.entries.toList, e.handle = h := by
  rw [Finmap.mem_iff]
  constructor
  · rintro ⟨⟨cost, seq⟩, hlookup⟩
    exact ⟨_, (r.lookup h cost seq).1 hlookup, rfl⟩
  · rintro ⟨⟨cost, seq, _⟩, he, rfl⟩
    exact ⟨(cost, seq), (r.lookup _ cost seq).2 he⟩

theorem contains_iff (r : q.Represents m) {h : CellHandle} : q.contains h = true ↔ h ∈ m := by
  rw [r.mem_iff, ← r.sound.indexed.mem_handles_iff, handles, List.mem_map]

theorem contains_eq (r : q.Represents m) (h : CellHandle) : q.contains h = decide (h ∈ m) := by
  rw [Bool.eq_iff_iff, r.contains_iff, decide_eq_true_iff]

theorem eq_empty_iff (r : q.Represents m) : m = ∅ ↔ q.peek? = none := by
  rw [peek?_eq_none_iff, List.eq_nil_iff_forall_not_mem]
  constructor
  · rintro rfl e he
    have hlookup := (r.lookup e.handle e.cost e.seq).2 he
    rw [Finmap.lookup_empty] at hlookup
    cases hlookup
  · intro hnil
    refine Finmap.ext_lookup fun h => ?_
    rw [Finmap.lookup_empty, Finmap.lookup_eq_none, r.mem_iff]
    rintro ⟨e, he, _⟩
    exact hnil e he

theorem cost?_eq (r : q.Represents m) (h : CellHandle) :
    q.cost? h = (m.lookup h).map Prod.fst := by
  rcases hlookup : m.lookup h with _ | ⟨cost, seq⟩
  · refine Indexed.cost?_eq_none ?_
    rw [r.contains_eq, decide_eq_false_iff_not]
    exact Finmap.lookup_eq_none.1 hlookup
  · exact r.sound.indexed.cost?_of_mem ((r.lookup h cost seq).1 hlookup)

theorem size_eq (r : q.Represents m) : q.size = m.keys.card := by
  have hkeys : m.keys = q.handles.toFinset := by
    ext h
    rw [Finmap.mem_keys, r.mem_iff, List.mem_toFinset, handles, List.mem_map]
  rw [hkeys, List.toFinset_card_of_nodup r.sound.indexed.handles_nodup, handles, List.length_map,
    Array.length_toList, size]

/-- The map is changed like the entries by a handle that comes in. -/
theorem insert (r : q.Represents m) {q' : Heap f} (s : q'.Sound) {e : HeapEntry f}
    (fresh : e.handle ∉ m) (hperm : q'.entries.toList.Perm (e :: q.entries.toList)) :
    q'.Represents (m.insert e.handle (e.cost, e.seq)) := by
  refine ⟨s, fun h cost seq => ?_⟩
  rw [CellMap.lookup_insert_iff fresh, r.lookup, hperm.mem_iff, List.mem_cons]
  rw [CellMap.entry_eq_iff]

/-- The map is changed like the entries by a handle that goes out. -/
theorem erase (r : q.Represents m) (h : CellHandle) : (q.erase h).Represents (m.erase h) := by
  obtain ⟨s, hperm⟩ := erase_spec r.sound h
  refine ⟨s, fun h' cost seq => ?_⟩
  rw [CellMap.lookup_erase_iff, r.lookup, hperm.mem_iff, List.mem_filter, decide_eq_true_iff,
    and_comm]

theorem empty : (Heap.empty : Heap f).Represents ∅ where
  sound := sound_empty
  lookup h cost seq := by
    rw [Finmap.lookup_empty]
    exact iff_of_false nofun nofun

/-- A queue of entries with different handles has their map. -/
theorem ofEntries {entries : List (HeapEntry f)} (s : q.Sound)
    (hperm : q.entries.toList.Perm entries) : q.Represents (.ofEntries entries) := by
  have nodup : (entries.map (·.handle)).Nodup :=
    (hperm.map HeapEntry.handle).nodup_iff.1 s.indexed.handles_nodup
  refine ⟨s, fun h cost seq => ?_⟩
  rw [hperm.mem_iff]
  exact CellMap.lookup_ofEntries_iff nodup

end Represents

/-- The entry of a least key is one that no other has to come out before. -/
theorem Represents.isLeast_iff (r : q.Represents m) {h : CellHandle} :
    m.IsLeast h ↔ ∃ e ∈ q.entries.toList, e.handle = h ∧
      ∀ e' ∈ q.entries.toList, e'.precedes e = false := by
  constructor
  · rintro ⟨cost, seq, hlookup, hleast⟩
    have hmem := (r.lookup h cost seq).1 hlookup
    refine ⟨_, hmem, rfl, fun e' he' => ?_⟩
    rw [HeapEntry.not_precedes_iff (r.sound.numeric _ he') (r.sound.numeric _ hmem)]
    exact hleast e'.handle e'.cost e'.seq ((r.lookup ..).2 he')
  · rintro ⟨e, he, rfl, hfirst⟩
    refine ⟨e.cost, e.seq, (r.lookup ..).2 he, fun h' cost' seq' hlookup => ?_⟩
    have hmem := (r.lookup h' cost' seq').1 hlookup
    have hnot := hfirst _ hmem
    rwa [HeapEntry.not_precedes_iff (r.sound.numeric _ hmem) (r.sound.numeric _ he)] at hnot

theorem Represents.isLeast_front (r : q.Represents m) {e : HeapEntry f} (he : q.peek? = some e) :
    m.IsLeast e.handle := by
  obtain ⟨hmem, hfirst⟩ := r.sound.peek?_first he
  exact r.isLeast_iff.2 ⟨e, hmem, rfl, hfirst⟩

/-- Entries with distinct sequence numbers have one order. -/
theorem Represents.unique (r : q.Represents m) (distinct : m.DistinctSeqs) :
    Unique q.entries.toList where
  numeric := r.sound.numeric
  nodup := by
    refine List.Nodup.map_on (fun e he e' he' heq => ?_)
      (List.Nodup.of_map _ r.sound.indexed.handles_nodup)
    have hhandle : e.handle = e'.handle :=
      distinct _ _ e.cost e'.cost e.seq ((r.lookup ..).2 he) ((r.lookup ..).2 (heq ▸ he'))
    exact List.inj_on_of_nodup_map r.sound.indexed.handles_nodup he he' hhandle

/-- With distinct sequence numbers only the front is a least key. -/
theorem Represents.front_of_isLeast (r : q.Represents m) (distinct : m.DistinctSeqs)
    {h : CellHandle} (hleast : m.IsLeast h) : q.peek?.map (·.handle) = some h := by
  obtain ⟨e, he, rfl, hfirst⟩ := r.isLeast_iff.1 hleast
  cases hpeek : q.peek? with
  | none =>
    rw [peek?_eq_none_iff.1 hpeek] at he
    cases he
  | some front =>
    obtain ⟨hmem, hfirst'⟩ := r.sound.peek?_first hpeek
    rw [(r.unique distinct).eq_of_not_precedes hmem he (hfirst front hmem) (hfirst' e he)]
    rfl

/-- Every admitted request is served and answered as the map tells. -/
theorem Represents.serve {r : Roomy f} (rep : r.queue.Represents m) {request : Request f}
    (admitted : m.Admits placeLimit request) (within : m.Within slotLimit request) :
    ∃ r' reply, r.serve request = .ok (r', reply) ∧ m.Answers request reply ∧
      r'.queue.Represents (m.after request reply) := by
  cases request with
  | push e =>
    obtain ⟨fresh, numeric, hplace⟩ := admitted
    have hcontains : r.queue.contains e.handle = false := by
      rw [rep.contains_eq]
      exact decide_eq_false fresh
    have hslot : r.queue.size < slotLimit := by
      rw [rep.size_eq]
      exact within
    obtain ⟨q', hpush, s, hperm⟩ := push_spec rep.sound hcontains numeric
    obtain ⟨r', hoffer, rfl⟩ := Roomy.offer_eq_ok hplace hslot hcontains hpush
    refine ⟨r', .unit, ?_, rfl, rep.insert s fresh hperm⟩
    show (r.offer e).map _ = _
    rw [hoffer]
    rfl
  | pop =>
    cases he : r.queue.peek? with
    | none =>
      refine ⟨r.refill r.queue.pop, .front none, ?_, .inl ⟨rep.eq_empty_iff.2 he, rfl⟩, ?_⟩
      · unfold Roomy.serve
        rw [he]
        rfl
      · have hpop : r.queue.pop = r.queue := by
          unfold pop removeAt
          rw [show r.queue.entries[0]? = none from he]
        show r.queue.pop.Represents m
        rw [hpop]
        exact rep
    | some e =>
      refine ⟨r.refill r.queue.pop, .front (some e.handle), ?_,
        .inr ⟨e.handle, rfl, rep.isLeast_front he⟩, ?_⟩
      · unfold Roomy.serve
        rw [he]
        rfl
      · show r.queue.pop.Represents (m.erase e.handle)
        rw [pop_eq_erase rep.sound.indexed he]
        exact rep.erase e.handle
  | remove h =>
    exact ⟨r.refill (r.queue.erase h), _, rfl, congrArg Reply.removed (rep.contains_eq h),
      rep.erase h⟩
  | rebuild entries =>
    obtain ⟨nodup, fits⟩ := admitted
    obtain ⟨q', hof, s, hperm⟩ := ofEntries_spec nodup fun e he => (fits e he).1
    obtain ⟨r', hrebuild, rfl⟩ :=
      Roomy.rebuild_eq_ok (r := r) (fun e he => (fits e he).2) within hof
    refine ⟨r', .unit, ?_, rfl, .ofEntries s hperm⟩
    show (r.rebuild entries).map _ = _
    rw [hrebuild]
    rfl
  | clear => exact ⟨r.refill .empty, .unit, rfl, rfl, .empty⟩

/-! ## Requests one after the other -/

variable {r : Roomy f}

theorem Reached.represents (reached : Reached placeLimit slotLimit r m) :
    r.queue.Represents m := by
  induction reached with
  | empty => exact .empty
  | step _ admitted within served ih =>
    obtain ⟨_, _, hserve, _, rep⟩ := ih.serve admitted within
    cases served.symm.trans hserve
    exact rep

/-- With handles for which a table can always grow, and no more of them than slots can, a queue
implements a finite map: after every list of admitted requests the check finds nothing, what the
queue shows agrees with the map, and every further request is served and answered as the map tells.
With distinct sequence numbers there is but one least key, and without a handle the others come out
as they would have. -/
theorem implements_map (reached : Reached placeLimit slotLimit r m) :
    r.queue.violation? = none ∧
    (∀ h, r.queue.contains h = decide (h ∈ m) ∧
      r.queue.cost? h = (m.lookup h).map Prod.fst) ∧
    r.queue.size = m.keys.card ∧
    ((r.queue.peek? = none ↔ m = ∅) ∧ ∀ e, r.queue.peek? = some e → m.IsLeast e.handle) ∧
    (∀ request, m.Admits placeLimit request → m.Within slotLimit request → ∃ r' reply,
      r.serve request = .ok (r', reply) ∧ m.Answers request reply ∧
        Reached placeLimit slotLimit r' (m.after request reply)) ∧
    (m.DistinctSeqs →
      (∀ h, m.IsLeast h → r.queue.peek?.map (·.handle) = some h) ∧
      ∀ h limit, r.queue.size ≤ limit →
        (r.queue.erase h).drained limit = (r.queue.drained limit).filter fun h' => h' ≠ h) := by
  have rep := reached.represents
  refine ⟨violation?_eq_none_iff.2 ⟨rep.sound.indexed, rep.sound.ordered⟩,
    fun h => ⟨rep.contains_eq h, rep.cost?_eq h⟩, rep.size_eq,
    ⟨rep.eq_empty_iff.symm, fun e => rep.isLeast_front⟩, ?_, ?_⟩
  · intro request admitted within
    obtain ⟨r', reply, served, answers, _⟩ := rep.serve admitted within
    exact ⟨r', reply, served, answers, reached.step admitted within served⟩
  · intro distinct
    exact ⟨fun h => rep.front_of_isLeast distinct,
      fun h limit => drained_erase rep.sound (rep.unique distinct) h⟩

/-- Two zeros of different sign, queued in place of something else, come out by their sequence
numbers. -/
theorem implements_map_zeros :
    let plus : HeapEntry .binary64 := ⟨.signedZero false, 5, ⟨2⟩⟩
    let minus : HeapEntry .binary64 := ⟨.signedZero true, 3, ⟨4⟩⟩
    let q : Heap .binary64 := ⟨#[minus, plus], #[none, none, some 1, none, some 0]⟩
    let m : CellMap .binary64 := .ofEntries [plus, minus]
    Reached placeLimit slotLimit ⟨q, 4, 8⟩ m ∧ q.violation? = none ∧ q.size = m.keys.card ∧
      m.IsLeast ⟨4⟩ ∧ (q.erase ⟨4⟩).drained 2 = (q.drained 2).filter fun h => h ≠ ⟨4⟩ := by
  intro plus minus q m
  let other : HeapEntry .binary64 := ⟨.one, 0, ⟨1⟩⟩
  have pushed : Reached placeLimit slotLimit ⟨⟨#[other], #[none, some 0]⟩, 4, 4⟩
      (CellMap.after ∅ (.push other) .unit) :=
    .step .empty (by decide +kernel) (by decide +kernel) (by decide +kernel)
  have reached : Reached placeLimit slotLimit ⟨q, 4, 8⟩
      (CellMap.after _ (.rebuild [plus, minus]) .unit) :=
    pushed.step (by decide +kernel) (by decide +kernel) (by decide +kernel)
  have distinct : m.DistinctSeqs := by
    intro h h' cost cost' seq hlookup hlookup'
    rw [CellMap.lookup_ofEntries_iff (by decide)] at hlookup hlookup'
    simp only [plus, minus, List.mem_cons, List.not_mem_nil, or_false, HeapEntry.mk.injEq]
      at hlookup hlookup'
    rcases hlookup with ⟨-, rfl, rfl⟩ | ⟨-, rfl, rfl⟩
    · rcases hlookup' with ⟨-, -, rfl⟩ | ⟨-, hseq, -⟩
      · rfl
      · cases hseq
    · rcases hlookup' with ⟨-, hseq, -⟩ | ⟨-, -, rfl⟩
      · cases hseq
      · rfl
  obtain ⟨checked, -, size, ⟨-, least⟩, -, unique⟩ := implements_map reached
  exact ⟨reached, checked, size, least minus rfl, (unique distinct).2 ⟨4⟩ 2 (Nat.le_refl _)⟩

/-- A handle far below the largest word is refused where the table has no place for it. -/
theorem refuses_beyond_places :
    let request : Request .binary64 := .push ⟨.one, 0, ⟨1152921504606846975⟩⟩
    CellMap.Admits (UInt64.size - 1) ∅ request ∧
      ({} : Roomy .binary64).serve request =
        .error (.noRoom (.tooLong 1152921504606846976 8)) ∧
      ¬ ∃ r' reply, ({} : Roomy .binary64).serve request = .ok (r', reply) := by
  intro request
  have refused : ({} : Roomy .binary64).serve request =
      .error (.noRoom (.tooLong 1152921504606846976 8)) := by decide +kernel
  refine ⟨by decide +kernel, refused, ?_⟩
  rintro ⟨r', reply, served⟩
  cases refused.symm.trans served

/-- The limit is sharp: a handle from there on may find its place in an empty table, but leaves too
much room in it for any larger one. -/
theorem refuses_larger {first next : HeapEntry f} (numeric : first.cost.isNaN = false)
    (beyond : placeLimit ≤ first.handle.val)
    (fits : (first.handle.val + 1) * placeBytes ≤ Room.limit)
    (larger : first.handle.val < next.handle.val) :
    ∃ r, ({} : Roomy f).offer first = .ok r ∧ ∃ refusal, r.offer next = .error refusal := by
  obtain ⟨q, hpush, -⟩ := push_spec (sound_empty (f := f)) (e := first) rfl numeric
  have hlimit : 4 ≤ placeLimit := by decide
  have hslots : slotsFor 0 1 = .ok 4 := by decide +kernel
  have hplaces := placesFor_zero (Nat.le_succ_of_le (hlimit.trans beyond)) fits
  exact ⟨_, Roomy.offer_eq rfl hpush hslots hplaces,
    Roomy.offer_full (Nat.lt_succ_of_le beyond) (Nat.succ_le_of_lt larger)⟩

end Heap

end BranchBound
