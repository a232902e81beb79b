/-
An update of the best known bound does in one call what storing the bound and then contracting by it
do in two. Both discard the same cells and leave the same store, the same queues slot by slot and
the same turn (`updateBestBound_agrees`). The one call spares the ranking by the new bound that the
contraction would make useless, and this is all that the statistics tell apart: where cells were
discarded, the two calls rank anew once more each view that depends on the bound.
-/
import BranchBound.Proofs.Frontier.Paired
import BranchBound.Proofs.Frontier.Single

namespace BranchBound

variable {f : Format}

namespace Statistics

/-- The second statistics count so many more views ranked anew than the first, each by itself, and
all else alike. Below the limit of the counter this is the difference of the two counts. -/
structure MoreReorders (more : Nat) (s s' : Statistics) : Prop where
  rest : s' = { s with reorders := s'.reorders }
  counted : s'.reorders = (Counter.raise · 1)^[more] s.reorders
  difference : s.reorders + more ≤ Counter.limit → s'.reorders = s.reorders + more

theorem moreReorders_iterate (s : Statistics) (more : Nat) :
    s.MoreReorders more (countReorder^[more] s) := by
  induction more with
  | zero => exact ⟨rfl, rfl, fun _ => rfl⟩
  | succ more ih =>
    rw [Function.iterate_succ_apply']
    refine ⟨?_, ?_, fun h => ?_⟩
    · rw [ih.rest]
      rfl
    · rw [Function.iterate_succ_apply', ← ih.counted]
      rfl
    · show Counter.raise (countReorder^[more] s).reorders 1 = _
      rw [ih.difference (by omega), Counter.raise_eq_add (by omega), Nat.add_assoc]

/-- A contraction may be counted before or after some views ranked anew. -/
theorem countContraction_iterate (s : Statistics) (discarded more : Nat) :
    countContraction (countReorder^[more] s) discarded =
      countReorder^[more] (s.countContraction discarded) :=
  (show Function.Commute (countContraction · discarded) countReorder from fun _ => rfl).iterate_right
    more s

end Statistics

/-- Once with the ranking anew where it was needed and once with the ranking anew in any case. -/
theorem Statistics.moreReorders_of_spared (s : Statistics) (discarded dependents : Nat) :
    (countReorder^[if discarded = 0 then dependents else 0]
      (s.countContraction discarded)).MoreReorders (if discarded = 0 then 0 else dependents)
        (countContraction (countReorder^[dependents] s) discarded) := by
  rw [countContraction_iterate]
  by_cases hzero : discarded = 0
  · rw [if_pos hzero, if_pos hzero]
    exact moreReorders_iterate _ 0
  · rw [if_neg hzero, if_neg hzero]
    exact moreReorders_iterate _ dependents

/-- An update agrees with the two calls that it stands for, for one view and for two: the same
count, and the same state but for the views ranked anew that the update spares. -/
theorem updateBestBound_agrees {bound : Binary f} (hb : bound.isNaN = false) :
    (∀ s : Paired f,
      let fused := s.updateBestBound bound
      let stepwise := (s.setBestBound bound).andThen fun s _ => s.contract bound
      ∃ count, fused.answer = .ok count ∧ stepwise.answer = .ok count ∧
        stepwise.state = { fused.state with statistics := stepwise.state.statistics } ∧
        fused.state.statistics.MoreReorders (if count = 0 then 0 else s.dependents)
          stepwise.state.statistics) ∧
    ∀ s : Single f,
      let fused := s.updateBestBound bound
      let stepwise := (s.setBestBound bound).andThen fun s _ => s.contract bound
      ∃ count, fused.answer = .ok count ∧ stepwise.answer = .ok count ∧
        stepwise.state = { fused.state with statistics := stepwise.state.statistics } ∧
        fused.state.statistics.MoreReorders (if count = 0 then 0 else s.dependents)
          stepwise.state.statistics := by
  constructor
  · intro s
    obtain ⟨_, hset⟩ := Paired.setBestBound_spec (s := s) hb
    obtain ⟨_, hupdate⟩ := Paired.updateBestBound_spec (s := s) hb
    rw [hset, hupdate, Step.done_andThen, Paired.contract_eq]
    exact ⟨s.discardCount bound, rfl, rfl, rfl,
      (s.rebound bound).statistics.moreReorders_of_spared (s.discardCount bound) s.dependents⟩
  · intro s
    obtain ⟨_, hset⟩ := Single.setBestBound_spec (s := s) hb
    obtain ⟨_, hupdate⟩ := Single.updateBestBound_spec (s := s) hb
    rw [hset, hupdate, Step.done_andThen, Single.contract_eq]
    exact ⟨s.discardCount bound, rfl, rfl, rfl,
      (s.rebound bound).statistics.moreReorders_of_spared (s.discardCount bound) s.dependents⟩

/-- Of two cells the bound discards one, and only the second view depends on the bound. -/
theorem updateBestBound_agrees_pruned :
    let s : Paired .binary64 := stateAfter Paired.apply
      (.ofRankings .estimateLower .tightness)
      [.push (.ofRegion (.entire 1)),
        .push { Cell.ofRegion (.entire 2) with estimate := ⟨.one, .infinity⟩ }]
    let fused := s.updateBestBound .zero
    let stepwise := (s.setBestBound .zero).andThen fun s _ => s.contract .zero
    (Binary.zero : Binary .binary64).isNaN = false ∧ fused.answer = .ok 1 ∧ s.dependents = 1 ∧
      ∃ count, fused.answer = .ok count ∧ stepwise.answer = .ok count ∧
        stepwise.state = { fused.state with statistics := stepwise.state.statistics } ∧
        fused.state.statistics.MoreReorders (if count = 0 then 0 else s.dependents)
          stepwise.state.statistics := by
  intro s fused stepwise
  exact ⟨rfl, by decide +kernel, by decide +kernel, (updateBestBound_agrees rfl).1 s⟩

end BranchBound
