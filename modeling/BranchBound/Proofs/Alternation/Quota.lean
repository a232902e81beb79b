/-
Whose turn it is under a quota. The pops go round: so many to the first view, then so many to the
second, and again. Main statement (`iterate_quota`): after any number of pops the turn is the one
that belongs to the place in the round, also where one of the quotas is zero. How many of the pops
went to the first view is told by the rounds that are over and by the place in the present one
(`servedFirst_succ`).
-/
import BranchBound.Alternation.Turn
import Mathlib.Logic.Function.Iterate

namespace BranchBound

namespace Turn

variable {first second : Nat}

/-- The turn at a place in the round of a quota, counted from its first pop. -/
def inRound (first second place : Nat) : Turn :=
  if place < first then ⟨.quota first second, .first, first - place, none⟩
  else ⟨.quota first second, .second, first + second - place, none⟩

theorem current_inRound (first second place : Nat) :
    (inRound first second place).current = .first ↔ place < first := by
  unfold inRound
  split <;> simp [*]

theorem start_quota (first second : Nat) :
    start (.quota first second) = inRound first second 0 := by
  rcases Nat.eq_zero_or_pos first with rfl | h
  · simp [start, inRound]
  · simp [start, inRound, h]

/-- A pop goes on to the next place; behind the last place the round starts anew. -/
theorem advance_inRound {place : Nat} (h : place < first + second) :
    (inRound first second place).advance =
      inRound first second ((place + 1) % (first + second)) := by
  by_cases hlast : place + 1 = first + second
  · rw [hlast, Nat.mod_self]
    -- the quota of the view is used up, and it is the only one if the other view has none
    rcases Nat.eq_zero_or_pos second with rfl | hsecond
    · have hplace : place < first := by omega
      have hleft : ¬ 1 < first - place := by omega
      simp [inRound, advance, refilled, quotaOf, View.other, hplace, hleft, Nat.zero_lt_of_lt hplace]
    · have hplace : ¬ place < first := by omega
      have hleft : ¬ 1 < first + second - place := by omega
      rcases Nat.eq_zero_or_pos first with rfl | hfirst
      · have hleft : ¬ 1 < second - place := by omega
        simp [inRound, advance, refilled, quotaOf, View.other, hleft]
      · have hne : first ≠ 0 := by omega
        simp [inRound, advance, refilled, quotaOf, View.other, hplace, hleft, hfirst, hne]
  · rw [Nat.mod_eq_of_lt (by omega)]
    rcases Nat.lt_trichotomy (place + 1) first with hnext | hnext | hnext
    · have hplace : place < first := by omega
      have hleft : 1 < first - place := by omega
      simp [inRound, advance, hplace, hleft, hnext, Nat.sub_sub]
    · -- the first view is through and the second one begins
      have hplace : place < first := by omega
      have hleft : ¬ 1 < first - place := by omega
      have hsecond : second ≠ 0 := by omega
      have hrest : first + second - (place + 1) = second := by omega
      simp [inRound, advance, refilled, quotaOf, View.other, hplace, hleft, hnext, hsecond]
    · have hplace : ¬ place < first := by omega
      have hnext' : ¬ place + 1 < first := by omega
      have hleft : 1 < first + second - place := by omega
      simp [inRound, advance, hplace, hleft, hnext', Nat.sub_sub]

/-- After any number of pops it is the turn that belongs to the place in the round. -/
theorem iterate_quota (h : 0 < first + second) (pops : Nat) :
    advance^[pops] (start (.quota first second)) =
      inRound first second (pops % (first + second)) := by
  induction pops with
  | zero => rw [Nat.zero_mod]; exact start_quota first second
  | succ pops ih =>
    rw [Function.iterate_succ_apply', ih, advance_inRound (Nat.mod_lt pops h), Nat.mod_add_mod]

/-! ## How many pops a view supplies -/

/-- How many of so many pops the first view supplies: its quota in every round that is over, and what
it has supplied in the present one. -/
def servedFirst (first second pops : Nat) : Nat :=
  pops / (first + second) * first + min (pops % (first + second)) first

/-- One more pop is one more of the first view exactly if it was its turn. -/
theorem servedFirst_succ (h : 0 < first + second) (pops : Nat) :
    servedFirst first second (pops + 1) =
      servedFirst first second pops + if pops % (first + second) < first then 1 else 0 := by
  have hlt := Nat.mod_lt pops h
  have hround := Nat.mod_add_div pops (first + second)
  unfold servedFirst
  by_cases hlast : pops % (first + second) + 1 = first + second
  · -- a round is over, in which the first view has supplied its whole quota
    obtain ⟨hdiv, hmod⟩ : (pops + 1) / (first + second) = pops / (first + second) + 1 ∧
        (pops + 1) % (first + second) = 0 := by
      rw [Nat.div_mod_unique h, Nat.mul_add_one]
      omega
    rw [hdiv, hmod, Nat.add_one_mul]
    split <;> omega
  · obtain ⟨hdiv, hmod⟩ : (pops + 1) / (first + second) = pops / (first + second) ∧
        (pops + 1) % (first + second) = pops % (first + second) + 1 := by
      rw [Nat.div_mod_unique h]
      omega
    rw [hdiv, hmod]
    split <;> omega

end Turn

end BranchBound
