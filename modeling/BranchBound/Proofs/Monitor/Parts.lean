/-
Calls part by part. An operation of a frontier is made of parts, each of which sends one notice at
most, and sends it last (`Workings.script`). While a script is watched the monitor gets the notices of
a part before the next part begins (`Script.watch`). Main statement (`Workings.Whole.watch_script`): a
call that is watched in this way ends like the call of which the monitor is told in the end, with the
same state, answer and monitor, and the monitor has put out the same. So it is with both kinds of
frontier (`Paired.whole_workings`, `Single.whole_workings`).
-/
import BranchBound.Frontier.Paired
import BranchBound.Frontier.Single
import BranchBound.Proofs.Monitor.Nesting

namespace BranchBound

variable {f : Format} {σ α β δ : Type}

/-- The notices of the first part of a call may be sent before the second part begins. -/
theorem Watched.call_andThen (w : Watched σ f) (act : σ → Step σ f α) (next : σ → α → Step σ f β) :
    w.call (fun s => (act s).andThen next) =
      let first := w.call act
      match first.2.1 with
      | .ok a =>
        let second := first.1.call (next · a)
        (second.1, second.2.1, first.2.2 ++ second.2.2)
      | .error failure => (first.1, .error failure, first.2.2) := by
  cases hanswer : (act w.state).answer with
  | ok a => simp [Watched.call, Step.andThen, hanswer, Monitor.observeEach_append]
  | error failure => simp [Watched.call, Step.andThen, hanswer]

/-- A call that is made of others, one after the other. -/
inductive Script (σ : Type) (f : Format) : Type → Type 1 where
  | part {α : Type} (act : σ → Step σ f α) : Script σ f α
  | andThen {α β : Type} (first : Script σ f α) (next : α → Script σ f β) : Script σ f β

namespace Script

/-- The call as a whole. -/
def step : {α : Type} → Script σ f α → σ → Step σ f α
  | _, part act, s => act s
  | _, andThen first next, s => (first.step s).andThen fun s a => (next a).step s

/-- Makes the call, part by part, and the monitor gets the notices of each part before the next one
begins: the state and monitor in the end, the answer and what the monitor puts out. -/
def watch : {α : Type} → Script σ f α → Watched σ f →
    Watched σ f × Except Failure α × List (Output f)
  | _, part act, w => w.call act
  | _, andThen first next, w =>
    let made := first.watch w
    match made.2.1 with
    | .ok a =>
      let rest := (next a).watch made.1
      (rest.1, rest.2.1, made.2.2 ++ rest.2.2)
    | .error failure => (made.1, .error failure, made.2.2)

/-- Every part sends one notice at most. -/
def Prompt : {α : Type} → Script σ f α → Prop
  | _, part act => ∀ s, (act s).notices.length ≤ 1
  | _, andThen first next => first.Prompt ∧ ∀ a, (next a).Prompt

/-- Watched part by part, a call does and is seen to do what it does as a whole. -/
theorem watch_eq (script : Script σ f α) (w : Watched σ f) : script.watch w = w.call script.step := by
  induction script generalizing w with
  | part act => rfl
  | andThen first next ihFirst ihNext =>
    have hstep : (andThen first next).step = fun s => (first.step s).andThen fun s a => (next a).step s :=
      rfl
    rw [hstep, w.call_andThen]
    simp only [watch, ihFirst, ihNext]

/-! ## Ways to put calls together -/

/-- Nothing but an answer. -/
def answer (a : α) : Script σ f α := part fun s => .done s a []

/-- The same call with its answer changed. -/
def map (g : α → β) (script : Script σ f α) : Script σ f β := script.andThen fun a => answer (g a)

/-- Some calls in order. -/
def inOrder : List (σ → Step σ f Unit) → Script σ f Unit
  | [] => answer ()
  | act :: rest => (part act).andThen fun _ => inOrder rest

theorem step_map (g : α → β) (script : Script σ f α) (s : σ) :
    (script.map g).step s = (script.step s).map g := by
  simp only [map, step, answer, Step.andThen, Step.done, Step.map]
  cases (script.step s).answer <;> simp [Except.map]

theorem prompt_answer (a : α) : (answer a : Script σ f α).Prompt := fun _ => Nat.zero_le 1

theorem Prompt.map {script : Script σ f α} (h : script.Prompt) (g : α → β) : (script.map g).Prompt :=
  ⟨h, fun a => prompt_answer (g a)⟩

theorem prompt_inOrder {acts : List (σ → Step σ f Unit)}
    (h : ∀ act ∈ acts, ∀ s, (act s).notices.length ≤ 1) : (inOrder acts).Prompt := by
  induction acts with
  | nil => exact prompt_answer ()
  | cons act rest ih =>
    obtain ⟨hact, hrest⟩ := List.forall_mem_cons.1 h
    exact ⟨hact, fun _ => ih hrest⟩

@[simp]
theorem step_inOrder_singleton (act : σ → Step σ f Unit) (s : σ) :
    (inOrder [act]).step s = act s := by
  have hstep : (inOrder [act]).step s = (act s).andThen fun s _ => .done s () [] := rfl
  rw [hstep]
  rcases h : act s with ⟨s', _ | ⟨⟩, notices⟩ <;> simp [Step.andThen, Step.done]

theorem step_inOrder_pair (act act' : σ → Step σ f Unit) (s : σ) :
    (inOrder [act, act']).step s = (act s).andThen fun s _ => act' s := by
  have hstep : (inOrder [act, act']).step s =
      (act s).andThen fun s _ => (inOrder [act']).step s := rfl
  rw [hstep]
  simp only [step_inOrder_singleton]

/-- Calls that never fail and send a notice each, which no other of them changes. -/
theorem step_inOrder_map {act : δ → σ → Step σ f Unit} (next : σ → δ → σ) (notice : σ → δ → Notice f)
    (hact : ∀ d s, act d s = .done (next s d) () [notice s d])
    (hnotice : ∀ s d e, notice (next s d) e = notice s e) (ds : List δ) (s : σ) :
    (inOrder (ds.map act)).step s = .done (ds.foldl next s) () (ds.map (notice s)) := by
  induction ds generalizing s with
  | nil => rfl
  | cons d rest ih =>
    have hnotices : rest.map (notice (next s d)) = rest.map (notice s) :=
      List.map_congr_left fun e _ => hnotice s d e
    have hstep : (inOrder ((d :: rest).map act)).step s =
        (act d s).andThen fun s _ => (inOrder (rest.map act)).step s := rfl
    rw [hstep, hact, Step.done_andThen, ih, hnotices]
    rfl

end Script

/-! ## The parts of operations -/

/-- Ranks cells anew and says nothing. -/
def quietly (rebuilt : σ → Except Heap.Fault σ) (s : σ) : Step σ f Unit :=
  match rebuilt s with
  | .ok s => .done s () []
  | .error fault => .faulted s (.view fault) []

/-- The parts of which the operations of a frontier are made. -/
structure Workings (σ : Type) (f : Format) where
  /-- The operations that send one notice at most. -/
  apply : σ → Operation f → Step σ f (Answer f)
  /-- Stores a best known bound and answers the one before. -/
  store : Binary f → σ → Step σ f (Binary f)
  /-- Counts the contraction by a threshold and answers which cells have to go, with the view that
  says so. -/
  sift : Binary f → σ → Step σ f (List (Pending f × View))
  /-- The state without the cell of a handle. -/
  erase : σ → CellHandle → σ
  statistics : σ → Statistics
  /-- Ranks the cells anew after some were discarded. -/
  rebuild : σ → Step σ f Unit
  /-- Rank the cells anew, view by view. -/
  reorders : List (σ → Step σ f Unit)
  /-- Rank the cells anew, view by view, where their costs depend on the best known bound. -/
  reorderDependents : List (σ → Step σ f Unit)
  /-- Says that the best known bound was replaced. -/
  announce : Binary f → σ → Step σ f Unit

namespace Workings

open Script

variable (p : Workings σ f)

/-- Discards a cell. -/
def discard (threshold : Binary f) (d : Pending f × View) (s : σ) : Step σ f Unit :=
  .done (p.erase s d.1.handle) () [⟨.prune d.1.cell d.2 threshold, p.statistics s⟩]

/-- The parts of a contraction: each cell is discarded on its own. -/
def contract (threshold : Binary f) : Script σ f Nat :=
  (part (p.sift threshold)).andThen fun out =>
  (inOrder (out.map (p.discard threshold))).andThen fun _ =>
  (if out.isEmpty then answer () else part p.rebuild).andThen fun _ =>
  answer out.length

/-- The parts of storing a best known bound. -/
def setBestBound (bound : Binary f) : Script σ f Unit :=
  (part (p.store bound)).andThen fun previous =>
  (inOrder p.reorderDependents).andThen fun _ =>
  part (p.announce previous)

/-- The parts of storing a best known bound and contracting by it. -/
def updateBestBound (bound : Binary f) : Script σ f Nat :=
  (part (p.store bound)).andThen fun previous =>
  (p.contract bound).andThen fun discarded =>
  (if discarded = 0 then inOrder p.reorderDependents else answer ()).andThen fun _ =>
  (part (p.announce previous)).map fun _ => discarded

/-- The parts of an operation. -/
def script : Operation f → Script σ f (Answer f)
  | .contract threshold => (p.contract threshold).map .count
  | .setBestBound bound => (p.setBestBound bound).map fun _ => .unit
  | .updateBestBound bound => (p.updateBestBound bound).map .count
  | .reorder => (inOrder p.reorders).map fun _ => .unit
  | operation => part (p.apply · operation)

variable {p}

/-- A contraction whose parts do not fail, but for the last one. -/
theorem step_contract {threshold : Binary f} {s sifted : σ} {out : List (Pending f × View)}
    {rebuilt : σ → Except Heap.Fault σ} (hsift : p.sift threshold s = .done sifted out [])
    (hstatistics : ∀ s h, p.statistics (p.erase s h) = p.statistics s)
    (hrebuild : p.rebuild = quietly rebuilt) :
    (p.contract threshold).step s =
      let rest := out.foldl (fun s d => p.erase s d.1.handle) sifted
      let notices : List (Notice f) :=
        out.map fun d => ⟨.prune d.1.cell d.2 threshold, p.statistics sifted⟩
      if out.isEmpty then .done rest 0 notices
      else
        match rebuilt rest with
        | .ok rest => .done rest out.length notices
        | .error fault => .faulted rest (.view fault) notices := by
  have hstep : (p.contract threshold).step s =
      (p.sift threshold s).andThen fun s out =>
      ((inOrder (out.map (p.discard threshold))).step s).andThen fun s _ =>
      ((if out.isEmpty then answer () else part p.rebuild).step s).andThen fun s _ =>
      .done s out.length [] := rfl
  have hdiscard : (inOrder (out.map (p.discard threshold))).step sifted =
      .done (out.foldl (fun s d => p.erase s d.1.handle) sifted) ()
        (out.map fun d => ⟨.prune d.1.cell d.2 threshold, p.statistics sifted⟩) := by
    refine step_inOrder_map (fun s d => p.erase s d.1.handle)
      (fun s d => ⟨.prune d.1.cell d.2 threshold, p.statistics s⟩) (fun _ _ => rfl)
      (fun s d e => ?_) out sifted
    rw [hstatistics]
  rw [hstep, hsift, Step.done_andThen, hdiscard, Step.done_andThen]
  rcases out with _ | ⟨d, ds⟩
  · rfl
  · generalize (d :: ds).foldl (fun s d => p.erase s d.1.handle) sifted = rest
    have hpart : (if (d :: ds).isEmpty then answer () else part p.rebuild).step rest =
        quietly rebuilt rest := congrFun hrebuild rest
    rw [hpart, quietly]
    simp only [List.isEmpty_cons, Bool.false_eq_true, if_false]
    cases rebuilt rest with
    | ok rest => simp [Step.done, Step.andThen]
    | error fault => simp [Step.faulted, Step.andThen]

theorem step_setBestBound {reorderDependent : σ → Step σ f Unit}
    (hreorder : ∀ s, (inOrder p.reorderDependents).step s = reorderDependent s) (bound : Binary f)
    (s : σ) :
    (p.setBestBound bound).step s = (p.store bound s).andThen fun s previous =>
      (reorderDependent s).andThen fun s _ => p.announce previous s := by
  simp only [setBestBound, step, hreorder]

theorem step_updateBestBound {contract : σ → Binary f → Step σ f Nat}
    {reorderDependent : σ → Step σ f Unit}
    (hcontract : ∀ threshold s, (p.contract threshold).step s = contract s threshold)
    (hreorder : ∀ s, (inOrder p.reorderDependents).step s = reorderDependent s) (bound : Binary f)
    (s : σ) :
    (p.updateBestBound bound).step s = (p.store bound s).andThen fun s previous =>
      (contract s bound).andThen fun s discarded =>
      (if discarded = 0 then reorderDependent s else .done s () []).andThen fun s _ =>
      (p.announce previous s).map fun _ => discarded := by
  have hrerank : ∀ discarded s,
      (if discarded = 0 then inOrder p.reorderDependents else answer ()).step s =
        if discarded = 0 then reorderDependent s else .done s () [] := by
    intro discarded s
    split
    · exact hreorder s
    · rfl
  simp only [updateBestBound, step, step_map, hcontract, hrerank]

/-- The parts make up the whole operations. -/
structure Whole (p : Workings σ f) : Prop where
  contract : ∀ threshold s,
    ((p.contract threshold).step s).map .count = p.apply s (.contract threshold)
  setBestBound : ∀ bound s,
    ((p.setBestBound bound).step s).map (fun _ => .unit) = p.apply s (.setBestBound bound)
  updateBestBound : ∀ bound s,
    ((p.updateBestBound bound).step s).map .count = p.apply s (.updateBestBound bound)
  reorder : ∀ s, ((inOrder p.reorders).step s).map (fun _ => .unit) = p.apply s .reorder

theorem Whole.step_script (h : p.Whole) (operation : Operation f) (s : σ) :
    (p.script operation).step s = p.apply s operation := by
  cases operation with
  | push | pop | top | flush => rfl
  | contract threshold => exact (step_map ..).trans (h.contract threshold s)
  | setBestBound bound => exact (step_map ..).trans (h.setBestBound bound s)
  | updateBestBound bound => exact (step_map ..).trans (h.updateBestBound bound s)
  | reorder => exact (step_map ..).trans (h.reorder s)

/-- It makes no difference to a call whether the monitor is told of each part or of the whole. -/
theorem Whole.watch_script (h : p.Whole) (w : Watched σ f) (operation : Operation f) :
    (p.script operation).watch w = w.call (p.apply · operation) := by
  have hstep : (p.script operation).step = fun s => p.apply s operation :=
    funext fun s => h.step_script operation s
  rw [watch_eq, hstep]

/-- Every part sends one notice at most. -/
structure Prompt (p : Workings σ f) : Prop where
  push : ∀ s cell, (p.apply s (.push cell)).notices.length ≤ 1
  pop : ∀ s, (p.apply s .pop).notices.length ≤ 1
  top : ∀ s, (p.apply s .top).notices.length ≤ 1
  flush : ∀ s, (p.apply s .flush).notices.length ≤ 1
  store : ∀ bound s, (p.store bound s).notices.length ≤ 1
  sift : ∀ threshold s, (p.sift threshold s).notices.length ≤ 1
  rebuild : ∀ s, (p.rebuild s).notices.length ≤ 1
  reorders : ∀ act ∈ p.reorders, ∀ s, (act s).notices.length ≤ 1
  reorderDependents : ∀ act ∈ p.reorderDependents, ∀ s, (act s).notices.length ≤ 1
  announce : ∀ previous s, (p.announce previous s).notices.length ≤ 1

theorem Prompt.contract (h : p.Prompt) (threshold : Binary f) : (p.contract threshold).Prompt := by
  refine ⟨h.sift threshold, fun out => ⟨prompt_inOrder fun act hact => ?_, fun _ =>
    ⟨?_, fun _ => prompt_answer _⟩⟩⟩
  · obtain ⟨d, -, rfl⟩ := List.mem_map.1 hact
    exact fun s => Nat.le_refl 1
  · split
    · exact prompt_answer ()
    · exact h.rebuild

theorem Prompt.script (h : p.Prompt) (operation : Operation f) : (p.script operation).Prompt := by
  have hrerank := prompt_inOrder h.reorderDependents
  have hannounce : ∀ previous (discarded : Nat),
      ((part (p.announce previous)).map fun _ => discarded).Prompt := fun previous discarded =>
    ⟨h.announce previous, fun _ => prompt_answer discarded⟩
  cases operation with
  | push cell => exact fun s => h.push s cell
  | pop => exact h.pop
  | top => exact h.top
  | flush => exact h.flush
  | contract threshold => exact (h.contract threshold).map _
  | reorder => exact (prompt_inOrder h.reorders).map _
  | setBestBound bound =>
    refine Script.Prompt.map ?_ _
    exact ⟨h.store bound, fun previous => ⟨hrerank, fun _ => h.announce previous⟩⟩
  | updateBestBound bound =>
    refine Script.Prompt.map ?_ _
    refine ⟨h.store bound, fun previous => ⟨h.contract bound, fun discarded => ⟨?_, fun _ =>
      hannounce previous discarded⟩⟩⟩
    split
    · exact hrerank
    · exact prompt_answer ()

end Workings

theorem length_notices_quietly (rebuilt : σ → Except Heap.Fault σ) (s : σ) :
    (quietly rebuilt s : Step σ f Unit).notices.length ≤ 1 := by
  unfold quietly
  split <;> exact Nat.zero_le 1

/-! ## Both kinds of frontier -/

namespace Paired

/-- The parts of the operations of a frontier with two views. -/
def workings : Workings (Paired f) f where
  apply := apply
  store bound s := s.storeBestBound bound
  sift threshold s :=
    let out := s.dominated threshold
    .done { s with statistics := s.statistics.countContraction out.length } out []
  erase s h := { s with cells := s.cells.erase h }
  statistics := statistics
  rebuild := quietly fun s => (s.rebuilt .first).bind fun s => s.rebuilt .second
  reorders := [(reorderView · .first), (reorderView · .second)]
  reorderDependents := [(reorderIfDependent · .first), (reorderIfDependent · .second)]
  announce previous s := s.announceBound previous

theorem step_contract (threshold : Binary f) (s : Paired f) :
    (workings.contract threshold).step s = s.contract threshold := by
  have hcells : ∀ (s : Paired f) (out : List (Pending f × View)),
      out.foldl (fun s d => workings.erase s d.1.handle) s =
        { s with cells := out.foldl (fun cells d => cells.erase d.1.handle) s.cells } :=
    fun s out => List.foldl_hom (fun cells => { s with cells }) fun _ _ => rfl
  rw [Workings.step_contract rfl (fun _ _ => rfl) rfl, hcells]
  simp only [contract, workings]
  split
  · rfl
  · generalize (rebuilt _ .first).bind _ = rebuilt
    cases rebuilt <;> rfl

theorem whole_workings : (workings (f := f)).Whole := by
  have hreorder : ∀ s : Paired f,
      (Script.inOrder workings.reorderDependents).step s = s.reorderDependent :=
    Script.step_inOrder_pair _ _
  constructor
  · intro threshold s
    rw [step_contract]
    rfl
  · intro bound s
    rw [Workings.step_setBestBound hreorder]
    rfl
  · intro bound s
    rw [Workings.step_updateBestBound step_contract hreorder]
    rfl
  · exact fun s => congrArg (Step.map _) (Script.step_inOrder_pair _ _ s)

theorem length_notices_reorderView (s : Paired f) (view : View) :
    (s.reorderView view).notices.length ≤ 1 := by
  unfold reorderView
  split <;> simp [Step.faulted, Step.done]

theorem length_notices_reorderIfDependent (s : Paired f) (view : View) :
    (s.reorderIfDependent view).notices.length ≤ 1 := by
  unfold reorderIfDependent
  split
  · exact s.length_notices_reorderView view
  · exact Nat.zero_le 1

theorem prompt_workings : (workings (f := f)).Prompt where
  push s cell := by
    show (s.push cell).notices.length ≤ 1
    unfold push
    split
    · exact Nat.zero_le 1
    · dsimp only
      split
      · exact Nat.zero_le 1
      · split
        · exact Nat.zero_le 1
        · exact Nat.le_refl 1
  pop s := by
    show s.pop.notices.length ≤ 1
    unfold pop
    dsimp only
    split
    · exact Nat.zero_le 1
    · split
      · exact Nat.zero_le 1
      · split
        · exact Nat.zero_le 1
        · exact Nat.le_refl 1
  top s := by
    simp only [workings, apply]
    split <;> exact Nat.zero_le 1
  flush s := Nat.le_refl 1
  store bound s := by
    show (s.storeBestBound bound).notices.length ≤ 1
    unfold storeBestBound
    split <;> simp [Step.faulted, Step.done]
  sift _ _ := Nat.zero_le 1
  rebuild s := length_notices_quietly _ s
  reorders := by simp [workings, length_notices_reorderView]
  reorderDependents := by simp [workings, length_notices_reorderIfDependent]
  announce _ _ := Nat.le_refl 1

end Paired

namespace Single

/-- The parts of the operations of a frontier with one view. -/
def workings : Workings (Single f) f where
  apply := apply
  store bound s := s.storeBestBound bound
  sift threshold s :=
    let out := s.dominated threshold
    .done { s with statistics := s.statistics.countContraction out.length }
      (out.map fun p => (p, .first)) []
  erase s h := { s with cells := s.cells.erase h }
  statistics := statistics
  rebuild := quietly rebuilt
  reorders := [reorder]
  reorderDependents := [reorderDependent]
  announce previous s := s.announceBound previous

theorem step_contract (threshold : Binary f) (s : Single f) :
    (workings.contract threshold).step s = s.contract threshold := by
  have hcells : ∀ (s : Single f) (out : List (Pending f × View)),
      out.foldl (fun s d => workings.erase s d.1.handle) s =
        { s with cells := out.foldl (fun cells d => cells.erase d.1.handle) s.cells } :=
    fun s out => List.foldl_hom (fun cells => { s with cells }) fun _ _ => rfl
  rw [Workings.step_contract rfl (fun _ _ => rfl) rfl, hcells]
  simp only [contract, workings, List.isEmpty_map, List.length_map, List.map_map, List.foldl_map]
  split
  · rfl
  · generalize rebuilt _ = rebuilt
    cases rebuilt <;> rfl

theorem whole_workings : (workings (f := f)).Whole := by
  have hreorder : ∀ s : Single f,
      (Script.inOrder workings.reorderDependents).step s = s.reorderDependent :=
    Script.step_inOrder_singleton _
  constructor
  · intro threshold s
    rw [step_contract]
    rfl
  · intro bound s
    rw [Workings.step_setBestBound hreorder]
    rfl
  · intro bound s
    rw [Workings.step_updateBestBound step_contract hreorder]
    rfl
  · exact fun s => congrArg (Step.map _) (Script.step_inOrder_singleton _ s)

theorem length_notices_reorder (s : Single f) : s.reorder.notices.length ≤ 1 := by
  unfold reorder
  split <;> simp [Step.faulted, Step.done]

theorem prompt_workings : (workings (f := f)).Prompt where
  push s cell := by
    show (s.push cell).notices.length ≤ 1
    unfold push
    split
    · exact Nat.zero_le 1
    · split
      · exact Nat.zero_le 1
      · exact Nat.le_refl 1
  pop s := by
    show s.pop.notices.length ≤ 1
    unfold pop
    split
    · exact Nat.zero_le 1
    · dsimp only
      split
      · exact Nat.zero_le 1
      · exact Nat.le_refl 1
  top s := by
    simp only [workings, apply]
    split <;> exact Nat.zero_le 1
  flush s := Nat.le_refl 1
  store bound s := by
    show (s.storeBestBound bound).notices.length ≤ 1
    unfold storeBestBound
    split <;> simp [Step.faulted, Step.done]
  sift _ _ := Nat.zero_le 1
  rebuild s := length_notices_quietly _ s
  reorders := by simp [workings, length_notices_reorder]
  reorderDependents := by
    simp only [workings, List.mem_singleton, forall_eq]
    intro s
    unfold reorderDependent
    split
    · exact s.length_notices_reorder
    · exact Nat.zero_le 1
  announce _ _ := Nat.le_refl 1

end Single

end BranchBound
