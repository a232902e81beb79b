/-
A contraction is a filter of the pending cells. Contractions one after the other take out what is
above one of their thresholds (`ContractingKind.prospect_contractAll`), and what they leave comes out
in the same order whatever their order was. Main statement (`contraction_filters`): in every state of
a run a contraction takes out the cells for which a ranking certifies a bound above the threshold and
leaves the others with their handles, sequence numbers and recorded costs; it may be repeated, put
before another one or joined with it; and until the next push no cell above the threshold is handed
out.
-/
import BranchBound.Proofs.Frontier.Accounts
import BranchBound.Proofs.Frontier.Distinct
import BranchBound.Proofs.Frontier.Ledger
import BranchBound.Proofs.Frontier.Popped
import BranchBound.Proofs.Frontier.Prospect

namespace BranchBound

variable {f : Format} {σ : Type}

/-! ## Contractions of either kind -/

section Contractions

variable (apply : σ → Operation f → Step σ f (Answer f)) (s : σ) (thresholds : List (Binary f))

/-- The state after contractions by some thresholds one after the other. -/
def contractAll : σ := stateAfter apply s (thresholds.map .contract)

/-- How many cells contractions by some thresholds take out together. -/
def discardedByAll : Nat :=
  ((callsFrom apply s (thresholds.map .contract)).map fun call =>
    call.operation.discarded call.step.answer).sum

end Contractions

namespace ContractingKind

variable (k : ContractingKind σ f) {s t : σ}

theorem contractAll_sound (h : k.Sound s) (thresholds : List (Binary f)) :
    k.Sound (contractAll k.apply s thresholds) :=
  stateAfter_keeps (P := k.Sound) (fun _ operation hs => k.keeps hs operation) h _

/-- Contractions one after the other are one filter by all thresholds together. -/
theorem prospect_contractAll (h : k.Sound s) (thresholds : List (Binary f)) :
    let out := fun cell => thresholds.any fun threshold =>
      certifiedAbove (k.prospect s).rankings threshold cell
    discardedByAll k.apply s thresholds = (k.prospect s).count out ∧
      k.prospect (contractAll k.apply s thresholds) = (k.prospect s).without out := by
  induction thresholds generalizing s with
  | nil =>
    have hnone : (k.prospect s).count (fun _ => false) = 0 :=
      Prospect.count_eq_zero_iff.2 fun _ _ => rfl
    exact ⟨hnone.symm, (Prospect.without_of_count_eq_zero hnone).symm⟩
  | cons threshold rest ih =>
    obtain ⟨hanswer, hprospect⟩ := k.contract h threshold
    obtain ⟨hcount, hrest⟩ := ih (k.keeps h (.contract threshold))
    simp only [hprospect, Prospect.rankings_without] at hcount hrest
    constructor
    · calc discardedByAll k.apply s (threshold :: rest)
        _ = (Operation.contract threshold).discarded (k.apply s (.contract threshold)).answer +
              discardedByAll k.apply (k.apply s (.contract threshold)).state rest := rfl
        _ = (k.prospect s).count (certifiedAbove (k.prospect s).rankings threshold) +
              discardedByAll k.apply (k.apply s (.contract threshold)).state rest := by
          rw [hanswer]
          rfl
        _ = _ := by
          rw [hcount]
          exact ((k.prospect s).count_or ..).symm
    · exact hrest.trans ((k.prospect s).without_without ..)

/-- Sound states with one prospect give out the same cells. -/
theorem poppedFrom_eq (hs : k.Sound s) (ht : k.Sound t) (h : k.prospect s = k.prospect t)
    (pops : Nat) : poppedFrom k.apply s pops = poppedFrom k.apply t pops := by
  refine poppedFrom_congr (R := fun s t => k.Sound s ∧ k.Sound t ∧ k.prospect s = k.prospect t)
    ?_ ⟨hs, ht, h⟩ pops
  rintro s t ⟨hs, ht, h⟩
  obtain ⟨hanswer, hnext⟩ := k.pop_congr hs ht h
  exact ⟨hanswer, k.keeps hs .pop, k.keeps ht .pop, hnext⟩

end ContractingKind

/-! ## What contractions leave -/

/-- The statistics with one contraction more that has taken nothing out. -/
def Statistics.countIdle (s : Statistics) : Statistics :=
  { s with contractions := Counter.raise s.contractions 1 }

theorem Statistics.countContraction_zero {s : Statistics} (h : s.pruned ≤ Counter.limit) :
    s.countContraction 0 = s.countIdle := by
  unfold countContraction countIdle
  rw [Counter.raise_eq_add h, Nat.add_zero]

/-- A cell that is handed out was in. -/
theorem Effect.mem_of_popped {a : Outline f} {step : Step (Outline f) f (Answer f)}
    (h : Effect a .pop step) {cell : Cell f} (hanswer : step.answer = .ok (.cell cell)) :
    cell ∈ a.content := by
  cases h with
  | pop content counted =>
    cases hanswer
    exact content ▸ Multiset.mem_cons_self ..
  | empty which content => cases hanswer
  | refused which nan => cases hanswer

/-- A contraction counts the cells that it takes out no further than to the limit. -/
theorem Effect.pruned_le {a : Outline f} {threshold : Binary f}
    {step : Step (Outline f) f (Answer f)} (h : Effect a (.contract threshold) step) :
    step.state.statistics.pruned ≤ Counter.limit := by
  cases h with
  | contract parts counted =>
    subst counted
    exact Counter.raise_le ..
  | empty which content => simp at which
  | refused which nan => simp at which

/-- The count of discarded cells stays in its limit along runs. -/
theorem Kind.pruned_le (k : Kind σ f) {start : σ} (sound : k.Sound start)
    (fresh : (k.outline start).statistics = {}) (operations : List (Operation f)) :
    (k.outline (stateAfter k.apply start operations)).statistics.pruned ≤ Counter.limit := by
  rw [k.statistics_eq sound fresh]
  exact Nat.min_le_right ..

theorem Kind.mem_of_popped (k : Kind σ f) {s : σ} (h : k.Sound s) {operation : Operation f}
    {cell : Cell f} (hpopped : Call.popped? ⟨s, operation, k.apply s operation⟩ = some cell) :
    cell ∈ (k.outline s).content := by
  cases operation with
  | pop =>
    refine (k.effect h .pop).mem_of_popped ?_
    unfold Call.popped? at hpopped
    show (k.apply s .pop).answer = _
    split at hpopped
    · cases hpopped
      assumption
    · cases hpopped
  | _ => cases hpopped

/-- What holds of all pending cells holds of all cells that are handed out before the next push. -/
theorem Kind.popped_without_push (k : Kind σ f) {P : Cell f → Prop} {operations : List (Operation f)}
    (others : ∀ operation ∈ operations, operation.isPush = false) {s : σ} (h : k.Sound s)
    (hP : ∀ cell ∈ (k.outline s).content, P cell) {call : Call σ f}
    (hcall : call ∈ callsFrom k.apply s operations) {cell : Cell f}
    (hpopped : call.popped? = some cell) : P cell := by
  induction operations generalizing s with
  | nil => cases hcall
  | cons operation rest ih =>
    obtain ⟨hother, hrest⟩ := List.forall_mem_cons.1 others
    rcases List.mem_cons.1 hcall with rfl | hlater
    · exact hP cell (k.mem_of_popped h hpopped)
    · refine ih hrest (k.keeps h operation) (fun cell hcell => ?_) hlater
      rcases (k.effect h operation).mem_content hcell with hold | rfl
      · exact hP cell hold
      · cases hother

/-! ## Contraction as a filter -/

/-- In a state contractions filter the pending cells by the lower bounds that some rankings certify
for them. -/
structure ContractsAsFilter (apply : σ → Operation f → Step σ f (Answer f)) (cells : σ → CellStore f)
    (recorded : σ → CellHandle → List (Option (Binary f))) (countIdle : σ → σ)
    (rankings : List Ranking) (s : σ) : Prop where
  /-- A contraction takes out the cells above the threshold and answers how many. The others are
  the same cells as before under the same handles and sequence numbers. -/
  filter (threshold : Binary f) :
    (apply s (.contract threshold)).answer = .ok (.count
      ((cells s).pending.countP fun p => certifiedAbove rankings threshold p.cell)) ∧
    (cells (apply s (.contract threshold)).state).pending =
      (cells s).pending.filter fun p => !certifiedAbove rankings threshold p.cell
  /-- The others keep the costs that are recorded for them. -/
  recorded (threshold : Binary f) :
    ∀ p ∈ (cells (apply s (.contract threshold)).state).pending,
      recorded (apply s (.contract threshold)).state p.handle = recorded s p.handle
  /-- A threshold that is no number or infinity takes nothing out, and only the contraction is
  counted. -/
  idle (threshold : Binary f) : threshold.isNaN = true ∨ threshold = .infinity →
    apply s (.contract threshold) = .done (countIdle s) (.count 0) []
  /-- A second contraction by one threshold takes nothing out, and only it is counted. -/
  again (threshold : Binary f) :
    apply (apply s (.contract threshold)).state (.contract threshold) =
      .done (countIdle (apply s (.contract threshold)).state) (.count 0) []
  /-- Contractions by two thresholds, in both orders, and one by the smaller of them take out the
  same cells, leave the same ones and have them come out in the same order. -/
  joined (t₁ t₂ : Binary f) : t₁.isNaN = false → t₂.isNaN = false →
    ∀ thresholds ∈ [[t₁, t₂], [t₂, t₁], [t₁.min t₂]],
      discardedByAll apply s thresholds =
        (cells s).pending.countP (fun p => certifiedAbove rankings (t₁.min t₂) p.cell) ∧
      (cells (contractAll apply s thresholds)).pending =
        ((cells s).pending.filter fun p => !certifiedAbove rankings (t₁.min t₂) p.cell) ∧
      ∀ pops, poppedFrom apply (contractAll apply s thresholds) pops =
        poppedFrom apply (contractAll apply s [t₁.min t₂]) pops
  /-- Before the next push no cell above the threshold is handed out. -/
  clear (threshold : Binary f) (operations : List (Operation f)) :
    (∀ operation ∈ operations, operation.isPush = false) →
      ∀ call ∈ callsFrom apply (apply s (.contract threshold)).state operations,
        ∀ cell, call.popped? = some cell → certifiedAbove rankings threshold cell = false

/-- Whatever the order of two thresholds, a cell is above one of them if it is above the smaller. -/
theorem any_certifiedAbove {t₁ t₂ : Binary f} (h₁ : t₁.isNaN = false) (h₂ : t₂.isNaN = false)
    {thresholds : List (Binary f)} (hmem : thresholds ∈ [[t₁, t₂], [t₂, t₁], [t₁.min t₂]])
    (rankings : List Ranking) :
    (fun cell : Cell f => thresholds.any fun threshold => certifiedAbove rankings threshold cell) =
      certifiedAbove rankings (t₁.min t₂) := by
  funext cell
  simp only [List.mem_cons, List.not_mem_nil, or_false] at hmem
  rcases hmem with rfl | rfl | rfl
  · simp [certifiedAbove_min h₁ h₂]
  · simp [certifiedAbove_min h₁ h₂, Bool.or_comm]
  · simp

namespace ContractingKind

variable (k : ContractingKind σ f)

/-- The state with one contraction more counted that has taken nothing out. -/
def countIdle (s : σ) : σ := k.withStatistics s (k.outline s).statistics.countIdle

theorem contract_of_none {s : σ} {threshold : Binary f}
    (fits : (k.outline s).statistics.pruned ≤ Counter.limit)
    (hnone : (k.prospect s).count (certifiedAbove (k.prospect s).rankings threshold) = 0) :
    k.apply s (.contract threshold) = .done (k.countIdle s) (.count 0) [] := by
  rw [k.contract_idle threshold hnone, Statistics.countContraction_zero fits]
  rfl

theorem pending_contract {s : σ} (h : k.Sound s) (threshold : Binary f) :
    (k.cells (k.apply s (.contract threshold)).state).pending =
      (k.cells s).pending.filter fun p =>
        !certifiedAbove (k.prospect s).rankings threshold p.cell := by
  rw [← k.pending_prospect, (k.contract h threshold).2, Prospect.pending_without,
    k.pending_prospect]

theorem recorded_contract {s : σ} (h : k.Sound s) (threshold : Binary f) {p : Pending f}
    (hp : p ∈ (k.cells (k.apply s (.contract threshold)).state).pending) :
    (k.prospect (k.apply s (.contract threshold)).state).recorded p.handle =
      (k.prospect s).recorded p.handle := by
  have hbefore : p ∈ (k.prospect s).pending := by
    rw [k.pending_contract h] at hp
    rw [k.pending_prospect]
    exact (List.mem_filter.1 hp).1
  rw [← k.pending_prospect] at hp
  rw [(k.ranks (k.keeps h (.contract threshold))).recorded_eq hp, (k.ranks h).recorded_eq hbefore,
    (k.contract h threshold).2, Prospect.rankings_without, Prospect.bestBound_without]

/-- What a contraction leaves is not above its threshold. -/
theorem contract_again {s : σ} (h : k.Sound s) (threshold : Binary f) :
    k.apply (k.apply s (.contract threshold)).state (.contract threshold) =
      .done (k.countIdle (k.apply s (.contract threshold)).state) (.count 0) [] := by
  refine k.contract_of_none (k.effect h (.contract threshold)).pruned_le ?_
  rw [(k.contract h threshold).2, Prospect.rankings_without, Prospect.count_eq_zero_iff]
  intro p hp
  rw [Prospect.pending_without, List.mem_filter, Bool.not_eq_true'] at hp
  exact hp.2

/-- In sound states contractions are filters. -/
theorem contractsAsFilter {s : σ} (h : k.Sound s)
    (fits : (k.outline s).statistics.pruned ≤ Counter.limit) :
    ContractsAsFilter k.apply k.cells (fun s => (k.prospect s).recorded) k.countIdle
      (k.prospect s).rankings s where
  filter threshold := by
    refine ⟨?_, k.pending_contract h threshold⟩
    rw [(k.contract h threshold).1, Prospect.count, k.pending_prospect]
  recorded threshold p hp := k.recorded_contract h threshold hp
  idle threshold hidle := by
    refine k.contract_of_none fits (Prospect.count_eq_zero_iff.2 fun p _ => ?_)
    exact certifiedAbove_eq_false hidle ..
  again threshold := k.contract_again h threshold
  joined t₁ t₂ h₁ h₂ thresholds hmem := by
    obtain ⟨hcount, hprospect⟩ := k.prospect_contractAll h thresholds
    obtain ⟨_, hsmaller⟩ := k.prospect_contractAll h [t₁.min t₂]
    simp only [any_certifiedAbove h₁ h₂ hmem] at hcount hprospect
    simp only [List.any_cons, List.any_nil, Bool.or_false] at hsmaller
    refine ⟨?_, ?_, ?_⟩
    · rw [hcount, Prospect.count, k.pending_prospect]
    · rw [← k.pending_prospect, hprospect, Prospect.pending_without, k.pending_prospect]
    · exact k.poppedFrom_eq (k.contractAll_sound h _) (k.contractAll_sound h _)
        (hprospect.trans hsmaller.symm)
  clear threshold operations others call hcall cell hpopped := by
    refine k.popped_without_push (P := fun cell =>
      certifiedAbove (k.prospect s).rankings threshold cell = false) others
      (k.keeps h (.contract threshold)) (fun cell hcell => ?_) hcall hpopped
    rw [k.content_outline, CellStore.mem_content_iff, k.pending_contract h] at hcell
    obtain ⟨p, hp, rfl⟩ := hcell
    rw [List.mem_filter, Bool.not_eq_true'] at hp
    exact hp.2

end ContractingKind

namespace Single

variable {s : Single f}

/-- Popping until nothing is left after a contraction gives what it would have given before, less
the cells that are out. -/
theorem Sound.popped_contract (h : s.Sound) (distinct : (s.cells.pending.map (·.seq)).Nodup)
    (threshold : Binary f) {pops : Nat} (hpops : s.size ≤ pops) :
    poppedFrom Single.apply (s.apply (.contract threshold)).state pops =
      (poppedFrom Single.apply s pops).filter fun cell =>
        !certifiedAbove [s.ranking] threshold cell := by
  obtain ⟨l, linedUp⟩ := h.exists_linedUp distinct
  let keep := fun cell : Cell f => !certifiedAbove [s.ranking] threshold cell
  have hpending : (s.apply (.contract threshold)).state.cells.pending =
      s.cells.pending.filter fun p => keep p.cell := contracting.pending_contract h threshold
  have hlength : l.length ≤ pops := by
    rw [linedUp.order.perm.length_eq, ← h.store.size]
    exact hpops
  have hkept : LinedUp (l.filter fun p => keep p.cell) (s.apply (.contract threshold)).state := by
    refine ⟨⟨?_, ?_⟩, h.apply (.contract threshold), ?_⟩
    · rw [hpending]
      exact linedUp.order.perm.filter _
    · rw [Single.apply, Step.state_map, contract_eq]
      exact linedUp.order.sorted.sublist List.filter_sublist
    · rw [hpending]
      exact distinct.sublist (List.filter_sublist.map Pending.seq)
  rw [hkept.popped ((List.length_filter_le ..).trans hlength), linedUp.popped hlength,
    List.filter_map]
  rfl

end Single

/-! ## Runs -/

/-- In every state that a run reaches, contractions filter the pending cells by what the rankings
certify. A frontier with one view also hands out the cells that are left in the order in which it
would have handed them out among the others, if no two have one sequence number, as is the case with
fewer pushes than there are such numbers. -/
theorem contraction_filters :
    (∀ {settings : Settings f} {start : Paired f}, Paired.ofSettings? settings = .ok start →
      ∀ operations : List (Operation f),
        let s := stateAfter Paired.apply start operations
        ContractsAsFilter Paired.apply Paired.cells
          (fun s h => [s.recordedCost? .first h, s.recordedCost? .second h])
          (fun s => { s with statistics := s.statistics.countIdle })
          [s.rankings.first, s.rankings.second] s) ∧
    ∀ (ranking : Ranking) (bestBound : Binary f) (operations : List (Operation f)),
      let s := stateAfter Single.apply (.ofRanking ranking bestBound) operations
      ContractsAsFilter Single.apply Single.cells (fun s h => [s.recordedCost? h])
        (fun s => { s with statistics := s.statistics.countIdle }) [s.ranking] s ∧
      ((s.cells.pending.map (·.seq)).Nodup → ∀ (threshold : Binary f) (pops : Nat), s.size ≤ pops →
        poppedFrom Single.apply (s.apply (.contract threshold)).state pops =
          (poppedFrom Single.apply s pops).filter fun cell =>
            !certifiedAbove [s.ranking] threshold cell) ∧
      (operations.countP Operation.isPush < UInt64.size - 1 →
        (s.cells.pending.map (·.seq)).Nodup) := by
  constructor
  · intro settings start made operations s
    have fresh : start.statistics = {} := by
      rw [Paired.eq_of_made made]
      rfl
    exact Paired.contracting.contractsAsFilter (Paired.sound_after_run made operations)
      (Paired.kind.pruned_le (Paired.sound_of_made made) fresh operations)
  · intro ranking bestBound operations s
    have sound := Single.sound_after_run ranking bestBound operations
    have hpruned := Single.kind.pruned_le (Single.sound_ofRanking ranking bestBound) rfl operations
    refine ⟨Single.contracting.contractsAsFilter sound hpruned, ?_, ?_⟩
    · intro distinct threshold pops hpops
      exact sound.popped_contract distinct threshold hpops
    · intro few
      exact Single.distinctAlong_ofRanking ranking bestBound few operations (List.prefix_refl _)

/-- Two cells above one of two thresholds, each by another ranking, and one cell above none. -/
theorem contraction_filters_three :
    let high : Cell .binary64 := .ofRegion ⟨[⟨.one, .infinity⟩]⟩
    let middle : Cell .binary64 := { Cell.ofRegion (.entire 1) with estimate := ⟨.zero, .infinity⟩ }
    let low : Cell .binary64 := .ofRegion (.entire 2)
    let operations : List (Operation .binary64) := [.push high, .push low, .push middle]
    let settings : Settings .binary64 := .ofRankings (.goalLower 0) .estimateLower
    let s := stateAfter Paired.apply (.ofSettings settings) operations
    let single := stateAfter Single.apply (.ofRanking (.goalLower 0) .infinity) operations
    (Paired.ofSettings? settings = .ok (.ofSettings settings) ∧
      (s.apply (.contract .nan)).answer = .ok (.count 0) ∧
      (s.apply (.contract .zero)).answer = .ok (.count 1) ∧
      discardedByAll Paired.apply s [.zero, .least] = 2 ∧
      (contractAll Paired.apply s [.least, .zero]).cells.pending = [⟨⟨1⟩, low, 1⟩]) ∧
    operations.countP Operation.isPush < UInt64.size - 1 ∧
      (single.cells.pending.map (·.seq)).Nodup ∧ single.size ≤ 3 ∧
      poppedFrom Single.apply single 3 = [low, middle, high] ∧
      poppedFrom Single.apply (single.apply (.contract .zero)).state 3 = [low, middle] := by
  intro high middle low operations settings s single
  obtain ⟨paired, ofRanking⟩ := contraction_filters (f := .binary64)
  constructor
  · have made : Paired.ofSettings? settings = .ok (.ofSettings settings) := rfl
    have filters := paired made operations
    obtain ⟨htotal, -⟩ := filters.joined .zero .least rfl rfl [.zero, .least] (by simp)
    obtain ⟨-, hleft, -⟩ := filters.joined .zero .least rfl rfl [.least, .zero] (by simp)
    refine ⟨made, ?_, ?_, ?_, ?_⟩
    · exact congrArg Step.answer (filters.idle .nan (.inl rfl))
    · exact (filters.filter .zero).1.trans (by decide +kernel)
    · exact htotal.trans (by decide +kernel)
    · exact hleft.trans (by decide +kernel)
  · have few : operations.countP Operation.isPush < UInt64.size - 1 := by decide
    have hpopped : poppedFrom Single.apply single 3 = [low, middle, high] := by decide +kernel
    have hsize : single.size ≤ 3 := by decide +kernel
    obtain ⟨-, order, distinct⟩ := ofRanking (.goalLower 0) .infinity operations
    refine ⟨few, distinct few, hsize, hpopped, ?_⟩
    rw [order (distinct few) .zero 3 hsize, hpopped]
    decide +kernel

end BranchBound
