/-
Whose turn it is under a percentage. A number drawn is the whole part of one hundred times a fraction,
that of the next two words of the generator (`Generator.percent_eq`), so it is always below one hundred.
Main statement (`percentage_by_draws`): after so many pops, counted from the last reset, it is the turn
of the first view exactly if the number drawn in that place is below the percentage. The numbers drawn
belong to the seed alone, so that a larger percentage gives the first view all the pops that a smaller
one gives it, and a reset replays them.
-/
import BranchBound.Alternation.Turn
import Mathlib.Logic.Function.Iterate

namespace BranchBound

/-! ## Numbers drawn -/

namespace Random

namespace Generator

theorem next_lt (g : Generator) : g.next < UInt32.size := UInt32.toNat_lt_size _

/-- Whether the second word is taken or not, the number drawn is that of both words: where it is not
taken it could not carry. -/
theorem percent_eq (g : Generator) :
    g.percent.1 = (g.next * UInt32.size + (g.skip 1).next) * 100 / UInt64.size := by
  have hfirst : g.next < 4294967296 := g.next_lt
  have hsecond : (g.skip 1).next < 4294967296 := (g.skip 1).next_lt
  have hwords : UInt32.size = 4294967296 := rfl
  have hpairs : UInt64.size = 18446744073709551616 := rfl
  unfold percent
  rw [hwords, hpairs]
  generalize g.next = first at hfirst ⊢
  generalize (g.skip 1).next = second at hsecond ⊢
  simp only
  split
  · split
    · show first * 100 / 4294967296 + 1 = _
      omega
    · show first * 100 / 4294967296 = _
      omega
  · show first * 100 / 4294967296 = _
    omega

theorem percent_lt (g : Generator) : g.percent.1 < 100 := by
  have hfirst : g.next < 4294967296 := g.next_lt
  have hsecond : (g.skip 1).next < 4294967296 := (g.skip 1).next_lt
  have hwords : UInt32.size = 4294967296 := rfl
  have hpairs : UInt64.size = 18446744073709551616 := rfl
  rw [percent_eq, hwords, hpairs]
  omega

/-- The generator after some numbers were drawn. -/
def after (g : Generator) (draws : Nat) : Generator := (fun g => g.percent.2)^[draws] g

theorem after_zero (g : Generator) : g.after 0 = g := rfl

theorem after_succ (g : Generator) (draws : Nat) :
    g.after (draws + 1) = (g.after draws).percent.2 :=
  Function.iterate_succ_apply' ..

end Generator

/-- The number drawn behind a seed after some others. -/
def percentAt (seed : UInt64) (draws : Nat) : Nat := ((Generator.ofSeed seed).after draws).percent.1

theorem percentAt_eq (seed : UInt64) (draws : Nat) :
    percentAt seed draws = ((Generator.ofSeed seed).after draws).percent.1 := rfl

end Random

/-! ## Turns -/

namespace Turn

/-- What may happen to a turn. -/
inductive Move where
  /-- A pop. -/
  | advance
  /-- The first turn once more. -/
  | reset
  deriving DecidableEq

/-- The turn after some moves. -/
def after (t : Turn) (moves : List Move) : Turn :=
  moves.foldl (fun t move => match move with | .advance => t.advance | .reset => t.reset) t

/-- How many pops there are behind the last reset, or from the beginning if there is none. -/
def sinceReset (moves : List Move) : Nat :=
  moves.foldl (fun pops move => match move with | .advance => pops + 1 | .reset => 0) 0

theorem policy_iterate (t : Turn) (pops : Nat) : (advance^[pops] t).policy = t.policy := by
  induction pops with
  | zero => rfl
  | succ pops ih => rw [Function.iterate_succ_apply', policy_advance, ih]

/-- A turn depends on the pops behind the last reset alone. -/
theorem after_eq (policy : Policy) (moves : List Move) :
    (start policy).after moves = advance^[sinceReset moves] (start policy) := by
  have hall : ∀ (moves : List Move) (pops : Nat),
      (advance^[pops] (start policy)).after moves =
        advance^[moves.foldl (fun pops move =>
          match move with | .advance => pops + 1 | .reset => 0) pops] (start policy) := by
    intro moves
    induction moves with
    | nil => exact fun _ => rfl
    | cons move moves ih =>
      intro pops
      cases move with
      | advance =>
        rw [List.foldl_cons, ← ih, Function.iterate_succ_apply']
        rfl
      | reset =>
        have hreset : (advance^[pops] (start policy)).reset = advance^[0] (start policy) := by
          rw [reset, policy_iterate, policy_start]
          rfl
        rw [List.foldl_cons, ← ih, ← hreset]
        rfl
  exact hall moves 0

theorem sinceReset_append_reset (moves moves' : List Move) :
    sinceReset (moves ++ .reset :: moves') = sinceReset moves' :=
  List.foldl_append

variable {percent : Nat} {seed : UInt64}

/-- The turn of a percentage after some pops. -/
def byDraw (percent : Nat) (seed : UInt64) (pops : Nat) : Turn where
  policy := .percentage percent seed
  current := if Random.percentAt seed pops < percent then .first else .second
  remaining := 0
  generator := some ((Random.Generator.ofSeed seed).after (pops + 1))

theorem drawn_fst (percent : Nat) (g : Random.Generator) :
    (drawn percent g).1 = if g.percent.1 < percent then .first else .second := rfl

theorem drawn_snd (percent : Nat) (g : Random.Generator) : (drawn percent g).2 = g.percent.2 := rfl

theorem start_percentage (percent : Nat) (seed : UInt64) :
    start (.percentage percent seed) = byDraw percent seed 0 := by
  show Turn.mk (.percentage percent seed) (drawn percent (.ofSeed seed)).1 0
    (some (drawn percent (.ofSeed seed)).2) = _
  unfold byDraw
  rw [drawn_fst, drawn_snd, Random.percentAt_eq, Random.Generator.after_succ,
    Random.Generator.after_zero]

theorem advance_byDraw (percent : Nat) (seed : UInt64) (pops : Nat) :
    (byDraw percent seed pops).advance = byDraw percent seed (pops + 1) := by
  show Turn.mk (.percentage percent seed) (drawn percent _).1 0 (some (drawn percent _).2) = _
  rw [drawn_fst, drawn_snd, ← Random.Generator.after_succ, ← Random.percentAt_eq]
  rfl

/-- Every pop draws one number more. -/
theorem iterate_percentage (pops : Nat) :
    advance^[pops] (start (.percentage percent seed)) = byDraw percent seed pops := by
  induction pops with
  | zero => exact start_percentage percent seed
  | succ pops ih => rw [Function.iterate_succ_apply', ih, advance_byDraw]

theorem current_byDraw {pops : Nat} :
    (byDraw percent seed pops).current = .first ↔ Random.percentAt seed pops < percent := by
  unfold byDraw
  split <;> simp [*]

theorem after_percentage (moves : List Move) :
    (start (.percentage percent seed)).after moves = byDraw percent seed (sinceReset moves) := by
  rw [after_eq, iterate_percentage]

theorem after_firstOnly (moves : List Move) : (start .firstOnly).after moves = start .firstOnly := by
  rw [after_eq]
  exact Function.iterate_fixed rfl _

theorem after_secondOnly (moves : List Move) :
    (start .secondOnly).after moves = start .secondOnly := by
  rw [after_eq]
  exact Function.iterate_fixed rfl _

/-- Under a percentage it is the turn of the first view exactly if the number that the seed gives to
the number of pops since the last reset is below the percentage. These numbers are below one hundred,
so that all or nothing is as good as one view for good; a larger percentage takes no pop from the
first view; and a reset starts anew. -/
theorem percentage_by_draws (seed : UInt64) :
    let first (percent : Nat) := start (.percentage percent seed)
    (∀ draws, Random.percentAt seed draws < 100) ∧
    (∀ percent ≤ 100, ofPolicy (.percentage percent seed) = .ok (first percent) ∧ ∀ moves,
      (((first percent).after moves).current = .first ↔
        Random.percentAt seed (sinceReset moves) < percent) ∧
      ((first percent).after moves).generator =
        some ((Random.Generator.ofSeed seed).after (sinceReset moves + 1))) ∧
    (∀ moves, ((first 100).after moves).current = ((start .firstOnly).after moves).current ∧
      ((first 0).after moves).current = ((start .secondOnly).after moves).current) ∧
    (∀ percent percent', percent ≤ percent' → percent' ≤ 100 → ∀ moves,
      ((first percent).after moves).current = .first →
        ((first percent').after moves).current = .first) ∧
    ∀ percent ≤ 100, ∀ moves moves',
      (first percent).after (moves ++ .reset :: moves') = (first percent).after moves' := by
  intro first
  have below (draws : Nat) : Random.percentAt seed draws < 100 := Random.Generator.percent_lt _
  have hcurrent (percent : Nat) (moves : List Move) :
      ((first percent).after moves).current = .first ↔
        Random.percentAt seed (sinceReset moves) < percent := by
    rw [after_percentage]
    exact current_byDraw
  refine ⟨below, ?_, ?_, ?_, ?_⟩
  · intro percent hpercent
    have made : ofPolicy (.percentage percent seed) = .ok (first percent) := by
      simp [ofPolicy, Policy.error?, Nat.not_lt.2 hpercent, first]
    refine ⟨made, fun moves => ⟨hcurrent percent moves, ?_⟩⟩
    rw [after_percentage]
    rfl
  · intro moves
    rw [after_firstOnly, after_secondOnly]
    constructor
    · exact (hcurrent 100 moves).2 (below _)
    · rw [after_percentage]
      rfl
  · intro percent percent' hle _ moves hfirst
    rw [hcurrent] at hfirst ⊢
    exact Nat.lt_of_lt_of_le hfirst hle
  · intro percent _ moves moves'
    rw [after_eq, after_eq, sinceReset_append_reset]

/-- The first number behind a seed is above fifty and the second one below, also after a reset. -/
theorem percentage_by_draws_replayed :
    let first (percent : Nat) := start (.percentage percent 1)
    let moves : List Move := [.advance, .reset, .advance]
    Random.percentAt 1 0 = 54 ∧ Random.percentAt 1 1 = 40 ∧
      ofPolicy (.percentage 50 1) = .ok (first 50) ∧ ((first 50).after []).current ≠ .first ∧
      ((first 50).after moves).current = .first ∧ ((first 60).after moves).current = .first ∧
      (first 50).after moves = (first 50).after [.advance] := by
  intro first moves
  have zeroth : Random.percentAt 1 0 = 54 := by decide +kernel
  have next : Random.percentAt 1 1 = 40 := by decide +kernel
  obtain ⟨-, byDraws, -, more, replays⟩ := percentage_by_draws 1
  obtain ⟨made, turns⟩ := byDraws 50 (by decide)
  have hbegin : ¬ Random.percentAt 1 (sinceReset []) < 50 := by
    rw [show sinceReset [] = 0 from rfl, zeroth]
    decide
  have hlater : Random.percentAt 1 (sinceReset moves) < 50 := by
    rw [show sinceReset moves = 1 from rfl, next]
    decide
  have hfirst := (turns moves).1.2 hlater
  exact ⟨zeroth, next, made, mt (turns []).1.1 hbegin, hfirst,
    more 50 60 (by decide) (by decide) moves hfirst, replays 50 (by decide) [.advance] [.advance]⟩

end Turn

end BranchBound
