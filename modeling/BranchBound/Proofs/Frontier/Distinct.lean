/-
Sequence numbers of pending cells stay distinct as long as the counter has not reached its limit. A
push gives out the next number, and all other calls at most let some go (`Effect.distinct`), so that
this is told once for both kinds of frontiers. Main statement (`Kind.distinctAlong_of_few`): with
fewer pushes than sequence numbers, no two pending cells of a run have one.
-/
import BranchBound.Proofs.Frontier.Effect

namespace BranchBound

variable {f : Format}

/-! ## One call -/

namespace Numbering

variable {n n' : Numbering}

/-- No number is given twice, and the next one is larger than all that are given. -/
structure Distinct (n : Numbering) : Prop where
  nodup : n.given.Nodup
  below : ∀ number ∈ n.given, number < n.next

theorem Distinct.keeps (h : n.Distinct) (keeps : n.Keeps n') : n'.Distinct where
  nodup := Multiset.nodup_of_le keeps.1 h.nodup
  below number hnumber := keeps.2 ▸ h.below number (Multiset.mem_of_le keeps.1 hnumber)

/-- A number that the counter can go past is a new one. -/
theorem Distinct.push (h : n.Distinct) (next : n.push.next = n.next + 1) : n.push.Distinct where
  nodup := Multiset.nodup_cons.2 ⟨fun hmem => Nat.lt_irrefl _ (h.below _ hmem), h.nodup⟩
  below number hnumber := by
    rw [next]
    rcases Multiset.mem_cons.1 hnumber with rfl | hold
    · exact Nat.lt_succ_self _
    · exact Nat.lt_succ_of_lt (h.below number hold)

end Numbering

/-- With room for one more push where there is one, distinct sequence numbers stay distinct. -/
theorem Effect.distinct {a : Outline f} {operation : Operation f}
    {step : Step (Outline f) f (Answer f)} (h : Effect a operation step)
    (distinct : a.numbering.Distinct) {pushes : Nat}
    (room : a.numbering.next + (pushes + if operation.isPush then 1 else 0) ≤ Counter.limit) :
    step.state.numbering.Distinct ∧ step.state.numbering.next + pushes ≤ Counter.limit := by
  have hroom : a.numbering.next + pushes ≤ Counter.limit :=
    Nat.le_trans (Nat.add_le_add_left (Nat.le_add_right ..) _) room
  have hkeeps {n : Numbering} (keeps : a.numbering.Keeps n) :
      n.Distinct ∧ n.next + pushes ≤ Counter.limit :=
    ⟨distinct.keeps keeps, keeps.2 ▸ hroom⟩
  cases h with
  | push counted =>
    have hone : a.numbering.next + (pushes + 1) ≤ Counter.limit := room
    have hnext : a.numbering.push.next = a.numbering.next + 1 := Counter.raise_eq_add (by omega)
    refine ⟨distinct.push hnext, ?_⟩
    show a.numbering.push.next + pushes ≤ Counter.limit
    omega
  | pop content counted numbers => exact hkeeps numbers
  | contract parts counted numbers => exact hkeeps numbers
  | updateBestBound views numeric parts contraction counted numbers => exact hkeeps numbers
  | flush counted numbers => exact hkeeps numbers
  | _ => exact ⟨distinct, hroom⟩

/-! ## Runs -/

section Runs

variable {σ : Type} {apply : σ → Operation f → Step σ f (Answer f)} {cells : σ → CellStore f}

/-- At no time of a run do two pending cells have one sequence number. -/
def DistinctAlong (apply : σ → Operation f → Step σ f (Answer f)) (cells : σ → CellStore f) (s : σ)
    (operations : List (Operation f)) : Prop :=
  ∀ done, done <+: operations → ((cells (stateAfter apply s done)).pending.map (·.seq)).Nodup

theorem DistinctAlong.head {s : σ} {operations : List (Operation f)}
    (h : DistinctAlong apply cells s operations) : ((cells s).pending.map (·.seq)).Nodup :=
  h [] List.nil_prefix

theorem DistinctAlong.tail {s : σ} {operation : Operation f} {rest : List (Operation f)}
    (h : DistinctAlong apply cells s (operation :: rest)) :
    DistinctAlong apply cells (apply s operation).state rest :=
  fun done hdone => h (operation :: done) (List.cons_prefix_cons.2 ⟨rfl, hdone⟩)

theorem DistinctAlong.drop {s : σ} {first rest : List (Operation f)}
    (h : DistinctAlong apply cells s (first ++ rest)) :
    DistinctAlong apply cells (stateAfter apply s first) rest := by
  intro done hdone
  have hdistinct := h (first ++ done) ((List.prefix_append_right_inj first).2 hdone)
  rwa [stateAfter, List.foldl_append] at hdistinct

/-- With fewer pushes than there are sequence numbers left, those of the pending cells stay
distinct. -/
theorem Kind.distinctAlong_of_few (k : Kind σ f) {operations : List (Operation f)} {s : σ}
    (sound : k.Sound s) (distinct : (k.outline s).numbering.Distinct)
    (few : (k.outline s).numbering.next + operations.countP Operation.isPush ≤ Counter.limit) :
    DistinctAlong k.apply k.cells s operations := by
  have hnodup {s : σ} (distinct : (k.outline s).numbering.Distinct) :
      ((k.cells s).pending.map (·.seq)).Nodup := by
    rw [k.numbering_outline] at distinct
    exact Multiset.coe_nodup.1 distinct.nodup
  induction operations generalizing s with
  | nil =>
    intro done hdone
    rw [List.prefix_nil.1 hdone]
    exact hnodup distinct
  | cons operation rest ih =>
    intro done hdone
    cases done with
    | nil => exact hnodup distinct
    | cons first done =>
      obtain ⟨rfl, hrest⟩ := List.cons_prefix_cons.1 hdone
      rw [List.countP_cons] at few
      obtain ⟨distinct', few'⟩ := (k.effect sound first).distinct distinct few
      exact ih (k.keeps sound first) distinct' few' done hrest

/-- A frontier that has numbered no cell yet has all numbers left. -/
theorem Kind.distinctAlong_of_fresh (k : Kind σ f) {start : σ} (sound : k.Sound start)
    (fresh : (k.outline start).numbering = ⟨0, 0⟩) {operations : List (Operation f)}
    (few : operations.countP Operation.isPush < UInt64.size - 1) :
    DistinctAlong k.apply k.cells start operations := by
  refine k.distinctAlong_of_few sound ?_ ?_
  · rw [fresh]
    exact ⟨Multiset.nodup_zero, fun _ hmem => absurd hmem (Multiset.notMem_zero _)⟩
  · rw [fresh]
    exact (Nat.zero_add _).trans_le (Nat.le_of_lt few)

end Runs

theorem Paired.distinctAlong_of_made {settings : Settings f} {start : Paired f}
    (made : ofSettings? settings = .ok start) {operations : List (Operation f)}
    (few : operations.countP Operation.isPush < UInt64.size - 1) :
    DistinctAlong Paired.apply Paired.cells start operations := by
  have sound := sound_of_made made
  obtain rfl := eq_of_made made
  exact kind.distinctAlong_of_fresh sound rfl few

theorem Single.distinctAlong_ofRanking (ranking : Ranking) (bestBound : Binary f)
    {operations : List (Operation f)} (few : operations.countP Operation.isPush < UInt64.size - 1) :
    DistinctAlong Single.apply Single.cells (ofRanking ranking bestBound) operations :=
  kind.distinctAlong_of_fresh (sound_ofRanking ranking bestBound) rfl few

end BranchBound
