/-
Which view supplies the next pop. The turn passes on with every cell that is handed out and with
nothing else, so that it depends on the number of these alone, however other calls come in between
(`Paired.turn_after_run`). Main statement (`Paired.view_by_pops`): after every run the current view
is that of the policy after so many pops; where the views go in strict turn or by quotas this is told
by the number itself, and so is how many pops each view has supplied.
-/
import BranchBound.Proofs.Alternation.Quota
import BranchBound.Proofs.Frontier.Accounts
import BranchBound.Proofs.Frontier.Agenda

namespace BranchBound

variable {f : Format}

/-! ## The views of a policy -/

namespace Policy

theorem viewAt_strict (pops : Nat) : strict.viewAt pops = .first ↔ pops % 2 = 0 := by
  have hturn : Turn.advance^[pops] (.start strict) =
      ⟨strict, if pops % 2 = 0 then .first else .second, 0, none⟩ := by
    induction pops with
    | zero => rfl
    | succ pops ih =>
      rw [Function.iterate_succ_apply', ih]
      rcases Nat.mod_two_eq_zero_or_one pops with h | h
      · simp [Turn.advance, View.other, Nat.add_mod, h]
      · simp [Turn.advance, View.other, Nat.add_mod, h]
  unfold viewAt
  rw [hturn]
  split <;> simp [*]

theorem viewAt_firstOnly (pops : Nat) : firstOnly.viewAt pops = .first :=
  congrArg Turn.current (Function.iterate_fixed rfl pops)

theorem viewAt_secondOnly (pops : Nat) : secondOnly.viewAt pops = .second :=
  congrArg Turn.current (Function.iterate_fixed rfl pops)

theorem viewAt_quota {first second : Nat} (h : 0 < first + second) (pops : Nat) :
    (quota first second).viewAt pops = .first ↔ pops % (first + second) < first := by
  rw [viewAt, Turn.iterate_quota h]
  exact Turn.current_inRound ..

/-- A quota that is accepted lets one of the views supply pops. -/
theorem quota_pos {first second : Nat} (h : (quota first second).error? = none) :
    0 < first + second := by
  rcases Nat.eq_zero_or_pos (first + second) with hzero | hpos
  · obtain ⟨rfl, rfl⟩ := Nat.add_eq_zero_iff.1 hzero
    cases h
  · exact hpos

end Policy

namespace Paired

variable {settings : Settings f} {start s : Paired f}

theorem policy_of_made (made : ofSettings? settings = .ok start) :
    settings.policy.error? = none := by
  unfold ofSettings? Settings.error? at made
  cases h : settings.policy.error? with
  | none => rfl
  | some error =>
    rw [h] at made
    cases made

/-! ## Runs -/

/-- The turn passes on if a cell is handed out, and stays where it is else. -/
theorem Sound.turn_apply (h : s.Sound) (operation : Operation f) :
    (s.apply operation).state.turn =
      if operation.handsOut (s.apply operation).answer then s.turn.advance else s.turn := by
  cases operation with
  | push cell =>
    obtain ⟨cells, views, handle, hpush, _⟩ := push_spec h cell
    rw [Paired.apply, hpush]
    rfl
  | pop =>
    by_cases hnil : s.cells.pending = []
    · rw [Paired.apply, (next_of_nil h hnil).1]
      rfl
    · obtain ⟨p, _, _, hpop⟩ := pop_spec h hnil
      rw [Paired.apply, hpop]
      rfl
  | top =>
    rw [Paired.apply]
    split <;> rfl
  | contract threshold =>
    rw [Paired.apply, contract_eq]
    rfl
  | setBestBound bound =>
    cases hb : bound.isNaN
    · rw [Paired.apply, setBestBound_eq hb]
      rfl
    · rw [Paired.apply, (bound_of_isNaN hb).1]
      rfl
  | updateBestBound bound =>
    cases hb : bound.isNaN
    · rw [Paired.apply, updateBestBound_eq hb]
      rfl
    · rw [Paired.apply, (bound_of_isNaN hb).2]
      rfl
  | reorder =>
    rw [Paired.apply, reorder_eq]
    rfl
  | flush => rfl

/-- The turn goes on beside the number of pops. -/
theorem Sound.turn_tally (h : s.Sound) (operation : Operation f) {calls : List (Call (Paired f) f)}
    (hturn : s.turn =
      Turn.advance^[(tally currentView size calls).popped] (.start settings.policy)) :
    (s.apply operation).state.turn =
      Turn.advance^[(tally currentView size (calls ++ [⟨s, operation, s.apply operation⟩])).popped]
        (.start settings.policy) := by
  rw [tally_append_singleton, Sound.turn_apply h]
  show _ = Turn.advance^[_ + (operation.handsOut (s.apply operation).answer).toNat] _
  cases operation.handsOut (s.apply operation).answer
  · exact hturn
  · rw [Bool.toNat_true, Function.iterate_succ_apply', ← hturn]
    rfl

/-- The turn is the first one passed on with every cell that was handed out. -/
theorem turn_after_run (made : ofSettings? settings = .ok start) (operations : List (Operation f)) :
    (stateAfter apply start operations).turn =
      Turn.advance^[(tally currentView size (callsFrom apply start operations)).popped]
        (.start settings.policy) := by
  refine (kind.run_induction (sound_of_made made) (Q := fun calls s =>
    s.turn = Turn.advance^[(tally currentView size calls).popped] (.start settings.policy))
    ?_ ?_ operations).2
  · rw [eq_of_made made]
    rfl
  · intro calls s operation hsound ih
    exact Sound.turn_tally hsound operation ih

/-- Under a quota the pops of the first view are those that belong to its places in the rounds. -/
theorem poppedFirst_after_run {first second : Nat} (made : ofSettings? settings = .ok start)
    (hquota : settings.policy = .quota first second) (operations : List (Operation f)) :
    let total := tally currentView size (callsFrom apply start operations)
    total.poppedFirst = Turn.servedFirst first second total.popped := by
  have hpos : 0 < first + second := Policy.quota_pos (hquota ▸ policy_of_made made)
  refine (kind.run_induction (sound_of_made made) (Q := fun calls s =>
    let total := tally currentView size calls
    s.turn = Turn.advance^[total.popped] (.start settings.policy) ∧
      total.poppedFirst = Turn.servedFirst first second total.popped) ?_ ?_ operations).2.2
  · rw [eq_of_made made]
    exact ⟨rfl, by simp [tally, Turn.servedFirst]⟩
  · rintro calls s operation hsound ⟨hturn, ih⟩
    have hview : s.currentView = .first ↔
        (tally currentView size calls).popped % (first + second) < first := by
      rw [currentView, hturn, hquota]
      exact Policy.viewAt_quota hpos _
    refine ⟨Sound.turn_tally hsound operation hturn, ?_⟩
    rw [tally_append_singleton]
    show _ + (operation.handsOut (s.apply operation).answer && s.currentView == .first).toNat =
      Turn.servedFirst first second (_ + (operation.handsOut (s.apply operation).answer).toNat)
    cases operation.handsOut (s.apply operation).answer
    · exact ih
    · rw [Bool.toNat_true, Turn.servedFirst_succ hpos, ← ih]
      by_cases hfirst : s.currentView = .first
      · simp [hfirst, hview.1 hfirst]
      · simp [hfirst, mt hview.2 hfirst]

/-- After every run it is the turn of the view that the policy gives to the number of pops so far.
What the policies that draw nothing give to a number is told by the number itself; and under a quota
so is how many pops each of the views has supplied. -/
theorem view_by_pops (made : ofSettings? settings = .ok start) (operations : List (Operation f)) :
    let s := stateAfter apply start operations
    let total := tally currentView size (callsFrom apply start operations)
    let view := settings.policy.viewAt
    s.currentView = view total.popped ∧
      (settings.policy = .strict → ∀ pops, view pops = .first ↔ pops % 2 = 0) ∧
      (settings.policy = .firstOnly → ∀ pops, view pops = .first) ∧
      (settings.policy = .secondOnly → ∀ pops, view pops = .second) ∧
      ∀ first second, settings.policy = .quota first second →
        (∀ pops, view pops = .first ↔ pops % (first + second) < first) ∧
          let served := total.popped / (first + second) * first +
            min (total.popped % (first + second)) first
          total.poppedFirst = served ∧ total.poppedSecond = total.popped - served ∧
            s.statistics.poppedFirst = min served Counter.limit ∧
            s.statistics.poppedSecond = min (total.popped - served) Counter.limit := by
  intro s total view
  refine ⟨congrArg Turn.current (turn_after_run made operations), ?_, ?_, ?_, ?_⟩
  · intro hpolicy pops
    rw [show view = Policy.strict.viewAt from congrArg Policy.viewAt hpolicy]
    exact Policy.viewAt_strict pops
  · intro hpolicy pops
    rw [show view = Policy.firstOnly.viewAt from congrArg Policy.viewAt hpolicy]
    exact Policy.viewAt_firstOnly pops
  · intro hpolicy pops
    rw [show view = Policy.secondOnly.viewAt from congrArg Policy.viewAt hpolicy]
    exact Policy.viewAt_secondOnly pops
  · intro first second hpolicy
    have hpos : 0 < first + second := Policy.quota_pos (hpolicy ▸ policy_of_made made)
    have hfirst : total.poppedFirst = Turn.servedFirst first second total.popped :=
      poppedFirst_after_run made hpolicy operations
    have hsum : total.popped = total.poppedFirst + total.poppedSecond := popped_tally ..
    have hcapped : s.statistics = total.capped :=
      kind.statistics_eq (sound_of_made made) (by rw [eq_of_made made]; rfl) operations
    constructor
    · intro pops
      rw [show view = (Policy.quota first second).viewAt from congrArg Policy.viewAt hpolicy]
      exact Policy.viewAt_quota hpos pops
    · intro served
      have hserved : total.poppedFirst = served := hfirst
      have hsecond : total.poppedSecond = total.popped - served := by omega
      rw [hcapped, ← hsecond, ← hserved]
      exact ⟨rfl, rfl, rfl, rfl⟩

/-- Two rounds of a quota with other calls between the pops, some of which fail. -/
theorem view_by_pops_rounds :
    let settings : Settings .binary64 := ⟨⟨.weight, .tightness⟩, .quota 1 2, .infinity⟩
    let start := ofSettings settings
    let operations : List (Operation .binary64) :=
      [.pop, .push (.ofRegion (.entire 1)), .push (.ofRegion (.entire 2)), .pop, .top,
        .contract .zero, .push (.ofRegion (.entire 3)), .setBestBound .nan, .pop, .flush, .pop,
        .push (.ofRegion (.entire 4)), .reorder, .pop, .updateBestBound .one,
        .push (.ofRegion (.entire 5)), .pop]
    let s := stateAfter apply start operations
    let total := tally currentView size (callsFrom apply start operations)
    ofSettings? settings = .ok start ∧ s.currentView = settings.policy.viewAt total.popped ∧
      total.popped = 4 ∧ s.currentView = .second ∧ total.poppedFirst = 2 ∧
      s.statistics.poppedSecond = 2 := by
  intro settings start operations s total
  have made : ofSettings? settings = .ok start := rfl
  have popped : total.popped = 4 := by decide +kernel
  obtain ⟨hview, -, -, -, hquota⟩ := view_by_pops made operations
  obtain ⟨hround, hfirst, -, -, hsecond⟩ := hquota 1 2 rfl
  have view : s.currentView = .second := by decide +kernel
  have second : 4 - (4 / (1 + 2) * 1 + min (4 % (1 + 2)) 1) = 2 := by decide
  rw [popped] at hfirst hsecond
  refine ⟨made, hview, popped, view, hfirst, ?_⟩
  rw [hsecond, second]
  rfl

end Paired

end BranchBound
