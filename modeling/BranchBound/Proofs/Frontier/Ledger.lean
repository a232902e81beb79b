/-
What becomes of the cells that are pushed. A ledger numbers the cells by their pushes and follows
each by its handle: it is pending until the call after which the store no longer knows the handle,
and what this call does is the fate of the cell. Main statement (`Ledger.accounts_after_run`): after
every run each pushed cell is entered once, as pending or with one fate. Those handed out are the
answers of the pops, one for each, and the pending ones are in the store under their handles.
-/
import BranchBound.Proofs.Frontier.Effect
import BranchBound.Proofs.Frontier.PriorityList

namespace BranchBound

open scoped List

variable {f : Format}

/-- What becomes of a cell that is taken out. -/
inductive Fate where
  | popped
  | pruned
  | flushed
  deriving DecidableEq

/-- The fate of the cells that an operation takes out, if it takes out any. -/
def Operation.fate? : Operation f → Option Fate
  | pop => some .popped
  | contract _ | updateBestBound _ => some .pruned
  | flush => some .flushed
  | push _ | top | setBestBound _ | reorder => none

namespace Call

variable {σ : Type}

/-- The cell that a call puts in. -/
def pushed? (call : Call σ f) : Option (Cell f) :=
  match call.operation with
  | .push cell => some cell
  | _ => none

/-- The cell that a call hands out. -/
def popped? (call : Call σ f) : Option (Cell f) :=
  match call.operation, call.step.answer with
  | .pop, .ok (.cell cell) => some cell
  | _, _ => none

end Call

/-- The cells numbered from zero on. -/
def Numbered.all (cells : List (Cell f)) : List (Numbered f) :=
  cells.zipIdx.map fun (cell, number) => ⟨number, cell⟩

theorem Numbered.all_append_singleton (cells : List (Cell f)) (cell : Cell f) :
    all (cells ++ [cell]) = all cells ++ [⟨cells.length, cell⟩] := by
  simp [all, List.zipIdx_append]

/-- Only one pending cell has the handle of one. -/
theorem CellStore.filter_handle {s : CellStore f} {p : Pending f} (hp : p ∈ s.pending) :
    (s.pending.filter fun p' => !decide (p'.handle ≠ p.handle)) = [p] := by
  refine List.perm_singleton.1 ((List.perm_append_left_iff
    (s.pending.filter fun p' => p'.handle ≠ p.handle)).1 ?_)
  calc _
    _ ~ s.pending := List.filter_append_perm ..
    _ ~ p :: s.pending.filter fun p' => p'.handle ≠ p.handle := (pending_perm_cons hp).symm
    _ ~ _ := (List.perm_append_singleton ..).symm

/-! ## The ledger -/

/-- What has become of the cells pushed so far. -/
structure Ledger (f : Format) where
  /-- The number of pushes. -/
  pushes : Nat := 0
  /-- The cells that are still in, with their handles. -/
  pending : List (CellHandle × Numbered f) := []
  /-- The cells that are out, with what has become of them. -/
  out : List (Fate × Numbered f) := []

namespace Ledger

/-- The entries of the cells that a store still knows. -/
def left (l : Ledger f) (cells : CellStore f) : List (CellHandle × Numbered f) :=
  l.pending.filter fun entry => cells.contains entry.1

/-- The cells entered as pending that a store no longer knows. -/
def gone (l : Ledger f) (cells : CellStore f) : List (Numbered f) :=
  (l.pending.filter fun entry => !cells.contains entry.1).map (·.2)

/-- The ledger after one more call. -/
def note (l : Ledger f) (call : Call (Paired f) f) : Ledger f :=
  match call.operation, call.step.answer with
  | .push cell, .ok (.handle h) =>
    { l with pushes := l.pushes + 1, pending := (h, ⟨l.pushes, cell⟩) :: l.pending }
  | operation, _ =>
    match operation.fate? with
    | some fate =>
      { l with
        pending := l.left call.step.state.cells
        out := l.out ++ (l.gone call.step.state.cells).map fun cell => (fate, cell) }
    | none => l

/-- The ledger of a run. -/
def ofCalls (calls : List (Call (Paired f) f)) : Ledger f := calls.foldl note {}

/-- The cells with a fate, in the order in which they got it. -/
def withFate (l : Ledger f) (fate : Fate) : List (Cell f) :=
  (l.out.filter (·.1 = fate)).map (·.2.cell)

/-- The ledger tells what has become of the cells of a run. -/
structure Accounts (l : Ledger f) (calls : List (Call (Paired f) f)) (s : Paired f) : Prop where
  pushes : l.pushes = (calls.filterMap Call.pushed?).length
  /-- Every pushed cell is entered once, under the number of its push. -/
  entries : (l.out.map (·.2) ++ l.pending.map (·.2)).Perm
    (Numbered.all (calls.filterMap Call.pushed?))
  /-- The cells entered as handed out are the answers of the pops. -/
  popped : l.withFate .popped = calls.filterMap Call.popped?
  /-- The cells entered as pending are those in the store. -/
  pending : (l.pending.map fun entry => (entry.1, entry.2.cell)).Perm
    (s.cells.pending.map fun p => (p.handle, p.cell))

/-! ## One call -/

theorem filterMap_append_singleton {α β : Type} (g : α → Option β) (l : List α) (a : α) :
    (l ++ [a]).filterMap g = l.filterMap g ++ (g a).toList := by
  rw [List.filterMap_append]
  cases h : g a <;> simp [h]

/-- At most one entry can be in one order only. -/
theorem eq_toList_of_perm {α : Type} {l : List α} {o : Option α} (h : l.Perm o.toList) :
    l = o.toList := by
  cases o with
  | none => exact h.eq_nil
  | some a => exact List.perm_singleton.1 h

theorem left_append_gone (l : Ledger f) (cells : CellStore f) :
    ((l.left cells).map (·.2) ++ l.gone cells).Perm (l.pending.map (·.2)) := by
  rw [gone, ← List.map_append]
  exact (List.filter_append_perm _ l.pending).map _

theorem withFate_append (l : Ledger f) (pending : List (CellHandle × Numbered f)) (fate : Fate)
    (cells : List (Numbered f)) (fate' : Fate) :
    { l with
      pending := pending
      out := l.out ++ cells.map fun cell => (fate, cell) }.withFate fate' =
      l.withFate fate' ++ if fate = fate' then cells.map (·.cell) else [] := by
  unfold withFate
  rw [List.filter_append, List.map_append, List.filter_map, List.map_map]
  split
  · rename_i heq
    simp [heq, Function.comp_def]
  · rename_i hne
    simp [hne, Function.comp_def]

namespace Accounts

variable {l : Ledger f} {calls : List (Call (Paired f) f)} {s : Paired f} {call : Call (Paired f) f}

/-- A property of handles cuts the entries of the pending cells as it cuts the cells. -/
theorem filter (h : l.Accounts calls s) (P : CellHandle → Bool) :
    ((l.pending.filter fun entry => P entry.1).map fun entry => (entry.1, entry.2.cell)).Perm
      ((s.cells.pending.filter fun p => P p.handle).map fun p => (p.handle, p.cell)) := by
  have hperm := h.pending.filter fun row => P row.1
  rwa [List.filter_map, List.filter_map] at hperm

/-- A call that takes cells out accounts for them under its fate. -/
theorem take (h : l.Accounts calls s) {fate : Fate} (hfate : call.operation.fate? = some fate)
    {keep : Pending f → Bool}
    (hpending : call.step.state.cells.pending = s.cells.pending.filter keep)
    (hpopped : (if fate = .popped then (s.cells.pending.filter fun p => !keep p).map (·.cell)
      else []) = call.popped?.toList) :
    (l.note call).Accounts (calls ++ [call]) call.step.state := by
  have hcontains : ∀ p ∈ s.cells.pending,
      call.step.state.cells.contains p.handle = keep p := by
    intro p hp
    rw [Bool.eq_iff_iff, CellStore.contains_iff, hpending]
    constructor
    · rintro ⟨p', hp', heq⟩
      obtain ⟨hmem, hkeep⟩ := List.mem_filter.1 hp'
      rwa [← CellStore.pending_inj hmem hp heq]
    · intro hkeep
      exact ⟨p, List.mem_filter.2 ⟨hp, hkeep⟩, rfl⟩
  have hpushed : call.pushed? = none := by
    unfold Call.pushed?
    split
    · rename_i heq
      rw [heq] at hfate
      cases hfate
    · rfl
  have hnote : l.note call =
      { l with
        pending := l.left call.step.state.cells
        out := l.out ++ (l.gone call.step.state.cells).map fun cell => (fate, cell) } := by
    unfold note
    split
    · rename_i heq _
      rw [heq] at hfate
      cases hfate
    · rw [hfate]
  have hleft := h.filter call.step.state.cells.contains
  rw [List.filter_congr hcontains, ← hpending] at hleft
  have hgone : ((l.gone call.step.state.cells).map (·.cell)).Perm
      ((s.cells.pending.filter fun p => !keep p).map (·.cell)) := by
    have hcut := (h.filter (!call.step.state.cells.contains ·)).map Prod.snd
    rw [List.filter_congr fun p hp => congrArg (!·) (hcontains p hp), List.map_map, List.map_map]
      at hcut
    rwa [gone, List.map_map]
  rw [hnote]
  constructor
  · rw [filterMap_append_singleton, hpushed, Option.toList_none, List.append_nil]
    exact h.pushes
  · have hcells := (l.left_append_gone call.step.state.cells).append_left (l.out.map (·.2))
    rw [filterMap_append_singleton, hpushed, Option.toList_none, List.append_nil]
    refine .trans ?_ (hcells.trans h.entries)
    -- the new entries stand behind the old ones
    rw [List.map_append, List.map_map, List.append_assoc]
    exact List.Perm.append_left _ (by simpa [Function.comp_def] using List.perm_append_comm)
  · rw [withFate_append, h.popped, filterMap_append_singleton]
    congr 1
    split
    · rename_i heq
      rw [if_pos heq] at hpopped
      exact eq_toList_of_perm (hpopped ▸ hgone)
    · rename_i hne
      rwa [if_neg hne] at hpopped
  · exact hleft

/-- A call that takes no cells out and puts none in leaves the ledger as it is. -/
theorem idle (h : l.Accounts calls s) (hfate : call.operation.fate? = none)
    (hpush : call.operation.isPush = false)
    (hpending : call.step.state.cells.pending = s.cells.pending) :
    (l.note call).Accounts (calls ++ [call]) call.step.state := by
  obtain ⟨before, operation, step⟩ := call
  obtain ⟨hnote, hpushed, hpopped⟩ : l.note ⟨before, operation, step⟩ = l ∧
      Call.pushed? ⟨before, operation, step⟩ = none ∧
      Call.popped? ⟨before, operation, step⟩ = none := by
    cases operation with
    | top | setBestBound | reorder => exact ⟨rfl, rfl, rfl⟩
    | push => cases hpush
    | _ => cases hfate
  rw [hnote]
  constructor
  · rw [filterMap_append_singleton, hpushed, Option.toList_none, List.append_nil]
    exact h.pushes
  · rw [filterMap_append_singleton, hpushed, Option.toList_none, List.append_nil]
    exact h.entries
  · rw [filterMap_append_singleton, hpopped, Option.toList_none, List.append_nil]
    exact h.popped
  · rw [hpending]
    exact h.pending

/-- A push enters its cell as pending. -/
theorem push (h : l.Accounts calls s) {cell : Cell f} {handle : CellHandle}
    (hoperation : call.operation = .push cell) (hanswer : call.step.answer = .ok (.handle handle))
    {seq : Nat}
    (hpending : call.step.state.cells.pending.Perm (⟨handle, cell, seq⟩ :: s.cells.pending)) :
    (l.note call).Accounts (calls ++ [call]) call.step.state := by
  have hpushed : call.pushed? = some cell := by
    unfold Call.pushed?
    rw [hoperation]
  have hpopped : call.popped? = none := by
    unfold Call.popped?
    rw [hoperation]
  have hnote : l.note call =
      { l with pushes := l.pushes + 1, pending := (handle, ⟨l.pushes, cell⟩) :: l.pending } := by
    unfold note
    rw [hoperation, hanswer]
  rw [hnote]
  constructor
  · rw [filterMap_append_singleton, hpushed, Option.toList_some, List.length_append,
      List.length_singleton, ← h.pushes]
  · rw [filterMap_append_singleton, hpushed, Option.toList_some, Numbered.all_append_singleton,
      ← h.pushes]
    refine .trans ?_ (h.entries.append_right _)
    rw [List.map_cons, List.append_assoc]
    exact .append_left _ (List.perm_append_singleton ..).symm
  · rw [filterMap_append_singleton, hpopped, Option.toList_none, List.append_nil]
    exact h.popped
  · exact (h.pending.cons (handle, cell)).trans
      (hpending.map fun p : Pending f => (p.handle, p.cell)).symm

/-- Every call on a sound frontier is accounted for. -/
theorem step (h : l.Accounts calls s) (sound : s.Sound) (operation : Operation f) :
    (l.note ⟨s, operation, s.apply operation⟩).Accounts
      (calls ++ [⟨s, operation, s.apply operation⟩]) (s.apply operation).state := by
  cases operation with
  | push cell =>
    obtain ⟨cells, views, handle, hpush, _, _, hperm, _⟩ := Paired.push_spec sound cell
    rw [Paired.apply, hpush]
    exact h.push rfl rfl hperm
  | pop =>
    by_cases hnil : s.cells.pending = []
    · rw [Paired.apply, (Paired.next_of_nil sound hnil).1]
      refine h.take rfl (List.filter_true _).symm ?_
      rw [if_pos rfl, hnil]
      rfl
    · obtain ⟨p, hp, _, hpop⟩ := Paired.pop_spec sound hnil
      rw [Paired.apply, hpop]
      refine h.take rfl (CellStore.erase_spec sound.store p.handle).2.1 ?_
      rw [if_pos rfl, CellStore.filter_handle hp.1]
      rfl
  | contract threshold =>
    rw [Paired.apply, Paired.contract_eq]
    exact h.take rfl (Paired.kept_spec sound.store threshold).2.1 rfl
  | updateBestBound bound =>
    cases hb : bound.isNaN
    · rw [Paired.apply, Paired.updateBestBound_eq hb]
      exact h.take rfl (Paired.kept_spec sound.store bound).2.1 rfl
    · rw [Paired.apply, (Paired.bound_of_isNaN hb).2]
      exact h.take rfl (List.filter_true _).symm rfl
  | top =>
    rw [Paired.apply]
    split
    · exact h.idle rfl rfl rfl
    · exact h.idle rfl rfl rfl
  | setBestBound bound =>
    cases hb : bound.isNaN
    · rw [Paired.apply, Paired.setBestBound_eq hb]
      exact h.idle rfl rfl rfl
    · rw [Paired.apply, (Paired.bound_of_isNaN hb).1]
      exact h.idle rfl rfl rfl
  | reorder =>
    rw [Paired.apply, Paired.reorder_eq]
    exact h.idle rfl rfl rfl
  | flush => exact h.take rfl (List.filter_false _).symm rfl

end Accounts

/-! ## Runs -/

theorem ofCalls_append_singleton (calls : List (Call (Paired f) f)) (call : Call (Paired f) f) :
    ofCalls (calls ++ [call]) = (ofCalls calls).note call :=
  List.foldl_append

/-- The ledger of a run tells what has become of its cells. -/
theorem accounts_after_run {settings : Settings f} {start : Paired f}
    (made : Paired.ofSettings? settings = .ok start) (operations : List (Operation f)) :
    (ofCalls (callsFrom Paired.apply start operations)).Accounts
      (callsFrom Paired.apply start operations) (stateAfter Paired.apply start operations) := by
  refine (Paired.kind.run_induction (Paired.sound_of_made made)
    (Q := fun calls s => (ofCalls calls).Accounts calls s) ?_ ?_ operations).2
  · rw [Paired.eq_of_made made]
    exact ⟨rfl, .nil, rfl, .nil⟩
  · intro calls s operation sound ih
    rw [ofCalls_append_singleton]
    exact ih.step sound operation

end Ledger

end BranchBound
