/-
The notices of a run as a journal. Whoever has read them knows what the frontier holds: the cells
that went in and did not come out again (`Event.replay?`), and the best known bound
(`Event.rebound?`). That the notices of one call lead from the outline before it to the one after it
is told effect by effect (`Effect.leads`), and leads to whole runs (`Kind.leads`). Main statement
(`journal_faithful`): the journal of a run leads to its end, no cell is said to come out that is not
in, each discarded cell is told with the view that condemns it, an update of the bound ends with the
bound, and up to the limit of the counters there are as many events of each kind as the statistics
count.
-/
import BranchBound.Monitor.Watched
import BranchBound.Proofs.Frontier.Accounts

namespace BranchBound

variable {f : Format}

/-! ## Reading a journal -/

namespace Event

/-- The pending cells after an event; none if a cell comes out that is not in, or if not as many are
flushed as there are. -/
def replay? (content : Multiset (Cell f)) : Event f → Option (Multiset (Cell f))
  | push _ cell => some (cell ::ₘ content)
  | pop _ cell | prune cell _ _ => if cell ∈ content then some (content.erase cell) else none
  | flush discarded => if discarded = content.card then some 0 else none
  | bound _ _ | reorder _ => some content

@[simp]
theorem replay?_push (content : Multiset (Cell f)) (handle : CellHandle) (cell : Cell f) :
    (push handle cell).replay? content = some (cell ::ₘ content) := rfl

@[simp]
theorem replay?_pop (content : Multiset (Cell f)) (view : View) (cell : Cell f) :
    (pop view cell).replay? (cell ::ₘ content) = some content := by
  simp [replay?]

@[simp]
theorem replay?_prune (content : Multiset (Cell f)) (cell : Cell f) (view : View)
    (threshold : Binary f) :
    (prune cell view threshold).replay? (cell ::ₘ content) = some content := by
  simp [replay?]

@[simp]
theorem replay?_flush (content : Multiset (Cell f)) :
    (flush content.card).replay? content = some 0 := by
  simp [replay?]

/-- The best known bound after an event; none if the event replaces another one. -/
def rebound? (best : Binary f) : Event f → Option (Binary f)
  | bound previous current => if previous = best then some current else none
  | _ => some best

@[simp]
theorem rebound?_bound (best bound : Binary f) : (Event.bound best bound).rebound? best = some bound :=
  if_pos rfl

/-- How many cells an event says are flushed. -/
def flushed : Event f → Nat
  | flush discarded => discarded
  | _ => 0

@[simp]
theorem flushed_flush (discarded : Nat) : (flush discarded : Event f).flushed = discarded := rfl

@[simp]
theorem flushed_of_kind_ne {e : Event f} (h : ¬ e.kind = .flush) : e.flushed = 0 := by
  cases e
  case flush => exact absurd rfl h
  all_goals rfl

end Event

/-- The notices of some calls, in order. -/
def journal {σ : Type} (calls : List (Call σ f)) : List (Notice f) :=
  calls.flatMap (·.step.notices)

/-- Whoever starts from one outline and reads the notices arrives at the other. -/
structure Leads (a : Outline f) (notices : List (Notice f)) (b : Outline f) : Prop where
  content : notices.foldlM (fun content n => n.event.replay? content) a.content = some b.content
  bestBound : notices.foldlM (fun best n => n.event.rebound? best) a.bestBound = some b.bestBound
  condemned : ∀ n ∈ notices, ∀ cell view threshold, n.event = .prune cell view threshold →
    a.Condemns threshold cell view
  dominates : b.dominates = a.dominates

/-- There are as many events of each kind as the statistics count. -/
structure Statistics.Told (s : Statistics) (notices : List (Notice f)) : Prop where
  pushed : notices.countP (·.event.kind == .push) = s.pushed
  poppedFirst : notices.countP (·.event.kind == .pop .first) = s.poppedFirst
  poppedSecond : notices.countP (·.event.kind == .pop .second) = s.poppedSecond
  pruned : notices.countP (·.event.kind == .prune) = s.pruned
  reorders : notices.countP (·.event.kind == .reorder) = s.reorders
  boundUpdates : notices.countP (·.event.kind == .bound) = s.boundUpdates
  flushed : (notices.map (·.event.flushed)).sum = s.flushed

/-- A call that updates the best known bound tells the discarded cells first, then the views that
were ranked anew, and last the bound with the statistics that it leaves; a refused one tells
nothing. -/
def Call.TellsUpdate {σ : Type} (outline : σ → Outline f) (c : Call σ f) : Prop :=
  ∀ bound, c.operation = .updateBestBound bound →
    (∃ fault, c.step.answer = .error (.fault fault) ∧ c.step.notices = []) ∨
    ∃ prunes reorders, c.step.answer = .ok (.count prunes.length) ∧
      c.step.notices = prunes ++ (reorders ++
        [⟨.bound (outline c.before).bestBound bound, (outline c.step.state).statistics⟩]) ∧
      (outline c.step.state).bestBound = bound ∧
      (∀ n ∈ prunes, n.event.kind = .prune) ∧ ∀ n ∈ reorders, n.event.kind = .reorder

/-! ## Journals one after the other -/

namespace Leads

variable {a b c : Outline f} {notices notices' : List (Notice f)}

theorem refl (a : Outline f) : Leads a [] a := ⟨rfl, rfl, by simp, rfl⟩

/-- A journal tells the view and the statistics of no outline. -/
theorem congr (h : Leads a notices b) (content : c.content = b.content)
    (bestBound : c.bestBound = b.bestBound) (dominates : c.dominates = b.dominates) :
    Leads a notices c :=
  ⟨content ▸ h.content, bestBound ▸ h.bestBound, h.condemned, dominates.trans h.dominates⟩

theorem append (first : Leads a notices b) (second : Leads b notices' c) :
    Leads a (notices ++ notices') c where
  content := by rw [List.foldlM_append, first.content]; exact second.content
  bestBound := by rw [List.foldlM_append, first.bestBound]; exact second.bestBound
  condemned n hn cell view threshold h := by
    rcases List.mem_append.1 hn with hn | hn
    · exact first.condemned n hn cell view threshold h
    · have hcondemns := second.condemned n hn cell view threshold h
      rwa [Outline.Condemns, first.dominates] at hcondemns
  dominates := second.dominates.trans first.dominates

end Leads

theorem Statistics.Told.append {s t : Statistics} {notices notices' : List (Notice f)}
    (first : s.Told notices) (second : t.Told notices') : (s.plus t).Told (notices ++ notices') := by
  constructor
  all_goals simp only [List.countP_append, List.map_append, List.sum_append, Statistics.plus]
  · rw [first.pushed, second.pushed]
  · rw [first.poppedFirst, second.poppedFirst]
  · rw [first.poppedSecond, second.poppedSecond]
  · rw [first.pruned, second.pruned]
  · rw [first.reorders, second.reorders]
  · rw [first.boundUpdates, second.boundUpdates]
  · rw [first.flushed, second.flushed]

/-! ## One call -/

namespace Notice

variable {threshold : Binary f} {statistics : Statistics}

@[simp]
theorem flushed_prunes (threshold : Binary f) (statistics : Statistics)
    (out : List (Cell f × View)) :
    ((prunes threshold statistics out).map (·.event.flushed)).sum = 0 := by
  simp [prunes, Function.comp_def]

@[simp]
theorem flushed_reorders (statistics : Statistics) (views : List View) :
    ((reorders (f := f) statistics views).map (·.event.flushed)).sum = 0 := by
  induction views generalizing statistics with
  | nil => rfl
  | cons view rest ih => exact (Nat.zero_add _).trans (ih _)

theorem kind_of_mem_prunes {out : List (Cell f × View)} {n : Notice f}
    (h : n ∈ prunes threshold statistics out) : n.event.kind = .prune := by
  obtain ⟨d, _, rfl⟩ := List.mem_map.1 h
  rfl

theorem kind_of_mem_reorders {views : List View} {n : Notice f} (h : n ∈ reorders statistics views) :
    n.event.kind = .reorder := by
  induction views generalizing statistics with
  | nil => cases h
  | cons view rest ih =>
    rcases List.mem_cons.1 h with rfl | h
    · rfl
    · exact ih h

/-- Cells that are in are taken out one after the other. -/
theorem replay?_prunes (out : List (Cell f × View)) (rest : Multiset (Cell f)) :
    (prunes threshold statistics out).foldlM (fun content n => n.event.replay? content)
      (↑(out.map Prod.fst) + rest) = some rest := by
  induction out with
  | nil => simp [prunes]
  | cons d out ih =>
    have hcontent : (↑((d :: out).map Prod.fst) + rest : Multiset (Cell f)) =
        d.1 ::ₘ (↑(out.map Prod.fst) + rest) := by
      rw [List.map_cons, ← Multiset.cons_coe, Multiset.cons_add]
    rw [hcontent]
    simpa [prunes] using ih

theorem rebound?_prunes (out : List (Cell f × View)) (best : Binary f) :
    (prunes threshold statistics out).foldlM (fun best n => n.event.rebound? best) best =
      some best := by
  induction out with
  | nil => rfl
  | cons d out ih => exact ih

end Notice

/-- The notices of a contraction take the cells out that it takes out. -/
theorem leads_prunes {a : Outline f} {threshold : Binary f} {statistics : Statistics}
    {out : List (Cell f × View)} {rest : Multiset (Cell f)} (parts : a.Parts threshold out rest) :
    Leads a (Notice.prunes threshold statistics out) { a with content := rest } where
  content := by
    rw [parts.content]
    exact Notice.replay?_prunes out rest
  bestBound := Notice.rebound?_prunes out a.bestBound
  condemned n hn cell view threshold' h := by
    obtain ⟨d, hd, rfl⟩ := List.mem_map.1 hn
    cases h
    exact parts.condemned d hd
  dominates := rfl

/-- Views that are ranked anew leave the cells and the bound as they are. -/
theorem leads_reorders (a : Outline f) (statistics : Statistics) (views : List View) :
    Leads a (Notice.reorders statistics views) a := by
  induction views generalizing statistics with
  | nil => exact .refl a
  | cons view rest ih =>
    have hview : Leads a [⟨.reorder view, statistics.countReorder⟩] a :=
      ⟨rfl, rfl, by simp, rfl⟩
    exact hview.append (ih statistics.countReorder)

/-- The notices of a call lead from the outline before it to the one after it. -/
theorem Effect.leads {a : Outline f} {operation : Operation f}
    {step : Step (Outline f) f (Answer f)} (h : Effect a operation step) :
    Leads a step.notices step.state := by
  have hbound (a : Outline f) (bound : Binary f) (statistics : Statistics) :
      Leads a [⟨.bound a.bestBound bound, statistics⟩] { a with bestBound := bound } :=
    ⟨rfl, by simp, by simp, rfl⟩
  cases h with
  | push counted => exact ⟨by simp [Step.done], rfl, by simp [Step.done], rfl⟩
  | pop content counted => exact ⟨by simp [Step.done, content], rfl, by simp [Step.done], rfl⟩
  | top mem => exact .refl a
  | empty which content => exact .refl a
  | contract parts counted => exact (leads_prunes parts).congr rfl rfl rfl
  | refused which nan => exact .refl a
  | setBestBound views numeric counted =>
    exact ((leads_reorders a _ views).append (hbound a _ _)).congr rfl rfl rfl
  | updateBestBound views numeric parts contraction counted =>
    exact ((leads_prunes parts).append ((leads_reorders _ _ views).append (hbound _ _ _))).congr
      rfl rfl rfl
  | reorder views counted => exact (leads_reorders a _ views).congr rfl rfl rfl
  | flush counted => exact ⟨by simp [Step.done], rfl, by simp [Step.done], rfl⟩

attribute [local simp] Operation.isPush Operation.handsOut Operation.discarded Operation.flushed
  Operation.contracted Operation.updated account Step.done Step.failed Step.faulted

/-- A call counts for what its notices tell. -/
theorem Effect.told {a : Outline f} {operation : Operation f}
    {step : Step (Outline f) f (Answer f)} (h : Effect a operation step) (size : Nat) :
    (account a.view operation step.answer step.notices size).Told step.notices := by
  cases h with
  | pop content counted => cases a.view <;> constructor <;> simp [beq_eq_decide]
  | empty which content => rcases which with rfl | rfl <;> constructor <;> simp
  | refused which nan => rcases which with rfl | rfl <;> constructor <;> simp
  | _ => constructor <;> simp

/-- An update that is not refused tells what it does in this order. -/
theorem Effect.tells_update {a : Outline f} {bound : Binary f}
    {step : Step (Outline f) f (Answer f)} (h : Effect a (.updateBestBound bound) step) :
    (∃ fault, step.answer = .error (.fault fault) ∧ step.notices = []) ∨
    ∃ prunes reorders, step.answer = .ok (.count prunes.length) ∧
      step.notices = prunes ++ (reorders ++
        [⟨.bound a.bestBound bound, step.state.statistics⟩]) ∧
      step.state.bestBound = bound ∧
      (∀ n ∈ prunes, n.event.kind = .prune) ∧ ∀ n ∈ reorders, n.event.kind = .reorder := by
  cases h with
  | empty which content => simp at which
  | refused which nan => exact .inl ⟨_, rfl, rfl⟩
  | updateBestBound views numeric parts contraction counted =>
    refine .inr ⟨_, _, ?_, rfl, rfl, fun _ => Notice.kind_of_mem_prunes,
      fun _ => Notice.kind_of_mem_reorders⟩
    rw [Notice.prunes, List.length_map]
    rfl

/-! ## Whole runs -/

theorem journal_append_singleton {σ : Type} (calls : List (Call σ f)) (c : Call σ f) :
    journal (calls ++ [c]) = journal calls ++ c.step.notices := by
  simp [journal]

/-- The journal of a run leads to its end and tells what the calls count for, update by update. -/
theorem Kind.leads {σ : Type} (k : Kind σ f) {start : σ} (sound : k.Sound start)
    (operations : List (Operation f)) :
    let calls := callsFrom k.apply start operations
    Leads (k.outline start) (journal calls) (k.outline (stateAfter k.apply start operations)) ∧
      (tally (fun s => (k.outline s).view) k.size calls).Told (journal calls) ∧
      ∀ c ∈ calls, c.TellsUpdate k.outline := by
  refine (k.run_induction sound (Q := fun calls s =>
    Leads (k.outline start) (journal calls) (k.outline s) ∧
      (tally (fun s => (k.outline s).view) k.size calls).Told (journal calls) ∧
      ∀ c ∈ calls, c.TellsUpdate k.outline) ?_ ?_ operations).2
  · exact ⟨.refl _, ⟨rfl, rfl, rfl, rfl, rfl, rfl, rfl⟩, by simp⟩
  · rintro calls s operation hsound ⟨hleads, htold, hupdates⟩
    -- the last call goes on where the journal of those before it ends
    have heffect := k.effect hsound operation
    rw [journal_append_singleton, tally_append_singleton]
    refine ⟨hleads.append heffect.leads, htold.append (heffect.told _), fun c hc => ?_⟩
    rcases List.mem_append.1 hc with hc | hc
    · exact hupdates c hc
    · rw [List.mem_singleton.1 hc]
      rintro bound rfl
      exact heffect.tells_update

/-- Some notices after others are all of them in order. -/
theorem Monitor.observeEach_append (m : Monitor f) (notices notices' : List (Notice f)) :
    m.observeEach (notices ++ notices') =
      let first := m.observeEach notices
      let second := first.1.observeEach notices'
      (second.1, first.2 ++ second.2) := by
  induction notices generalizing m with
  | nil => rfl
  | cons notice rest ih => simp [observeEach, ih]

/-- What a monitor puts out along a run is what it makes of the journal of the run. -/
theorem Watched.run_eq {σ : Type} (apply : σ → Operation f → Step σ f (Answer f)) (w : Watched σ f)
    (operations : List (Operation f)) :
    let watch := w.monitor.observeEach (journal (callsFrom apply w.state operations))
    w.run apply operations = (⟨stateAfter apply w.state operations, watch.1⟩, watch.2) := by
  induction operations generalizing w with
  | nil => rfl
  | cons operation rest ih =>
    rw [run, ih]
    simp [call, callsFrom, stateAfter, journal, Monitor.observeEach_append]

/-- A recorder puts out what it gets. -/
theorem Monitor.observeEach_recorder (name : String) (notices : List (Notice f)) :
    (Monitor.leaf (.recorder name)).observeEach notices =
      (.leaf (.recorder name), notices.map (.recorded name)) := by
  induction notices with
  | nil => rfl
  | cons notice rest ih =>
    rw [observeEach]
    simp [observe, Watcher.observe, ih]

/-- What a recorder puts out along a run is the journal of the run. -/
theorem Watched.run_recorder {σ : Type} (apply : σ → Operation f → Step σ f (Answer f))
    (name : String) (start : σ) (operations : List (Operation f)) :
    (Watched.mk start (.leaf (.recorder name))).run apply operations =
      (⟨stateAfter apply start operations, .leaf (.recorder name)⟩,
        (journal (callsFrom apply start operations)).map (.recorded name)) := by
  rw [run_eq, Monitor.observeEach_recorder]

/-- A recorder that watches a frontier from its start has the journal of the run, which leads to the
present cells and bound and tells every call that the statistics count. -/
theorem journal_faithful :
    (∀ {settings : Settings f} {start : Paired f}, Paired.ofSettings? settings = .ok start →
      ∀ (operations : List (Operation f)) (name : String),
        let s := stateAfter Paired.apply start operations
        let calls := callsFrom Paired.apply start operations
        (Watched.mk start (.leaf (.recorder name))).run Paired.apply operations =
          (⟨s, .leaf (.recorder name)⟩, (journal calls).map (.recorded name)) ∧
        Leads start.outline (journal calls) s.outline ∧
        ((tally Paired.currentView Paired.size calls).Fits → s.statistics.Told (journal calls)) ∧
        ∀ c ∈ calls, c.TellsUpdate Paired.outline) ∧
    ∀ (ranking : Ranking) (bestBound : Binary f) (operations : List (Operation f)) (name : String),
      let start := Single.ofRanking ranking bestBound
      let s := stateAfter Single.apply start operations
      let calls := callsFrom Single.apply start operations
      (Watched.mk start (.leaf (.recorder name))).run Single.apply operations =
        (⟨s, .leaf (.recorder name)⟩, (journal calls).map (.recorded name)) ∧
      Leads start.outline (journal calls) s.outline ∧
      ((tally (fun _ => .first) Single.size calls).Fits → s.statistics.Told (journal calls)) ∧
      ∀ c ∈ calls, c.TellsUpdate Single.outline := by
  constructor
  · intro settings start made operations name s calls
    have sound := Paired.sound_of_made made
    obtain ⟨hleads, htold, hupdates⟩ := Paired.kind.leads sound operations
    refine ⟨Watched.run_recorder .., hleads, fun fits => ?_, hupdates⟩
    have hcapped : s.statistics = (tally Paired.currentView Paired.size calls).capped :=
      Paired.kind.statistics_eq sound (by rw [Paired.eq_of_made made]; rfl) operations
    rw [hcapped, Statistics.capped_of_fits fits]
    exact htold
  · intro ranking bestBound operations name start s calls
    have sound := Single.sound_ofRanking ranking bestBound
    obtain ⟨hleads, htold, hupdates⟩ := Single.kind.leads sound operations
    refine ⟨Watched.run_recorder .., hleads, fun fits => ?_, hupdates⟩
    have hcapped : s.statistics = (tally (fun _ => .first) Single.size calls).capped :=
      Single.kind.statistics_eq sound rfl operations
    rw [hcapped, Statistics.capped_of_fits fits]
    exact htold

/-- A cell comes out, one is discarded by the estimate, which only the second view knows, and the last
one is flushed. -/
theorem journal_faithful_seven :
    let settings : Settings .binary64 := ⟨⟨.goalLower 0, .estimateLower⟩, .firstOnly, .infinity⟩
    let start := Paired.ofSettings settings
    let single : Single .binary64 := .ofRanking .estimateLower .infinity
    let operations : List (Operation .binary64) :=
      [.push (.ofRegion (.entire 1)), .push (.ofRegion (.entire 2)),
        .push { Cell.ofRegion (.entire 3) with estimate := ⟨.one, .infinity⟩ }, .pop,
        .updateBestBound .nan, .updateBestBound .zero, .flush]
    let calls := callsFrom Paired.apply start operations
    let callsSingle := callsFrom Single.apply single operations
    (Paired.ofSettings? settings = .ok start ∧
      (tally Paired.currentView Paired.size calls).Fits ∧ (journal calls).length = 7 ∧
      (Watched.mk start (.leaf (.recorder "log"))).run Paired.apply operations =
        (⟨stateAfter Paired.apply start operations, .leaf (.recorder "log")⟩,
          (journal calls).map (.recorded "log")) ∧
      Leads start.outline (journal calls) (stateAfter Paired.apply start operations).outline ∧
      (stateAfter Paired.apply start operations).statistics.Told (journal calls) ∧
      ∀ c ∈ calls, c.TellsUpdate Paired.outline) ∧
    (tally (fun _ => .first) Single.size callsSingle).Fits ∧ (journal callsSingle).length = 7 ∧
      Leads single.outline (journal callsSingle)
        (stateAfter Single.apply single operations).outline ∧
      (stateAfter Single.apply single operations).statistics.Told (journal callsSingle) := by
  intro settings start single operations calls callsSingle
  obtain ⟨paired, ofRanking⟩ := journal_faithful (f := .binary64)
  constructor
  · have made : Paired.ofSettings? settings = .ok start := rfl
    have fits : (tally Paired.currentView Paired.size calls).Fits := by decide +kernel
    obtain ⟨records, leads, told, updates⟩ := paired made operations "log"
    exact ⟨made, fits, by decide +kernel, records, leads, told fits, updates⟩
  · have fits : (tally (fun _ => .first) Single.size callsSingle).Fits := by decide +kernel
    obtain ⟨-, leads, told, -⟩ := ofRanking .estimateLower .infinity operations "log"
    exact ⟨fits, by decide +kernel, leads, told fits⟩

end BranchBound
