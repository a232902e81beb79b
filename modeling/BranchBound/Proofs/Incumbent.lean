/-
The best known bound as a running minimum. Main statement (`keeps_running_minimum`): whatever is offered,
an offer is taken exactly if it is a number below the bound so far, or the first number; what is taken is
held bit for bit and gets strictly smaller from offer to offer; and the bound in the end is the least number
among the first bound and all offers, in whichever order they came. One offer leaves the least of two values
(`isLeastNumber_tighten`), and the least of the least and the rest is the least of all
(`IsLeastNumber.cons`).
-/
import BranchBound.Incumbent
import BranchBound.Proofs.Binary.Order

namespace BranchBound

/-- A value of a list that no number of the list is below. It is a number if the list holds one. -/
structure IsLeastNumber {f : Format} (values : List (Binary f)) (least : Binary f) : Prop where
  mem : least ∈ values
  le : ∀ x ∈ values, x.isNaN = false → least ≤ x

namespace IsLeastNumber

variable {f : Format} {values values' : List (Binary f)} {x y least least' : Binary f}

theorem isNaN_iff (h : IsLeastNumber values least) :
    least.isNaN = true ↔ ∀ x ∈ values, x.isNaN = true := by
  constructor
  · intro none x hx
    cases number : x.isNaN
    · rw [(Binary.isNaN_of_le (h.le x hx number)).1] at none
      cases none
    · rfl
  · intro none
    exact none least h.mem

/-- The least of the least of two values and of others is the least of all. -/
theorem cons (first : IsLeastNumber [x, y] least) (h : IsLeastNumber (least :: values) least') :
    IsLeastNumber (x :: y :: values) least' where
  mem := by
    rcases List.mem_cons.1 h.mem with rfl | hmem
    · exact List.mem_append_left values first.mem
    · exact List.mem_cons_of_mem _ (List.mem_cons_of_mem _ hmem)
  le := by
    intro z hz number
    rcases List.mem_append.1 (show z ∈ [x, y] ++ values from hz) with hpair | hvalues
    · have hle := first.le z hpair number
      exact Binary.le_trans (h.le least List.mem_cons_self (Binary.isNaN_of_le hle).1) hle
    · exact h.le z (List.mem_cons_of_mem _ hvalues) number

/-- Lists with the same members have the same least numbers, if any. -/
theorem place_eq (h : IsLeastNumber values least) (h' : IsLeastNumber values' least')
    (same : ∀ x, x ∈ values ↔ x ∈ values') : least.place = least'.place := by
  cases number : least.isNaN
  · have hle' := h'.le least ((same _).1 h.mem) number
    have hle := h.le least' ((same _).2 h'.mem) (Binary.isNaN_of_le hle').1
    obtain ⟨x, y, hx, hy, hxy⟩ := Binary.le_iff.1 hle
    rw [Binary.le_iff_of_place hy hx] at hle'
    rw [hx, hy, Int.le_antisymm hxy hle']
  · have none' := h'.isNaN_iff.2 fun x hx => h.isNaN_iff.1 number x ((same x).2 hx)
    cases least with
    | nan =>
      cases least' with
      | nan => rfl
      | number negative code bounded => cases none'
    | number negative code bounded => cases number

end IsLeastNumber

namespace Incumbent

variable {i : Incumbent} {candidate : UInt64}

/-! ## Offers -/

/-- A candidate is a number and below the bound so far, unless that is no number. -/
def Improves (i : Incumbent) (candidate : UInt64) : Prop :=
  (valueOf candidate).isNaN = false ∧ (i.bound.isNaN = true ∨ valueOf candidate < i.bound)

theorem tighten_of_improves (h : i.Improves candidate) : i.tighten candidate = (⟨candidate⟩, true) := by
  obtain ⟨number, improves⟩ := h
  have hle : ¬ i.bound ≤ valueOf candidate := by
    rintro hle
    rcases improves with none | hlt
    · rw [(Binary.isNaN_of_le hle).1] at none
      cases none
    · exact (Binary.not_le_iff (Binary.isNaN_of_le hle).1 number).2 hlt hle
  rw [tighten, number, if_neg Bool.false_ne_true, if_neg hle]

theorem tighten_of_not_improves (h : ¬ i.Improves candidate) : i.tighten candidate = (i, false) := by
  unfold tighten
  split
  · rfl
  · split
    · rfl
    · rename_i number hle
      refine absurd ⟨eq_false_of_ne_true number, ?_⟩ h
      cases known : i.bound.isNaN
      · exact .inr ((Binary.not_le_iff known (eq_false_of_ne_true number)).1 hle)
      · exact .inl rfl

/-- An offer is taken exactly if it improves the bound; then it is the bound, bit for bit, and otherwise
nothing changes. -/
theorem tighten_spec (i : Incumbent) (candidate : UInt64) :
    ((i.tighten candidate).2 = true ↔ i.Improves candidate) ∧
      (i.tighten candidate).1.bits = if (i.tighten candidate).2 then candidate else i.bits := by
  by_cases h : i.Improves candidate
  · rw [tighten_of_improves h]
    exact ⟨iff_of_true rfl h, rfl⟩
  · rw [tighten_of_not_improves h]
    exact ⟨iff_of_false Bool.false_ne_true h, rfl⟩

/-- After an offer the bound is the least of the bound before and the candidate. -/
theorem isLeastNumber_tighten (i : Incumbent) (candidate : UInt64) :
    IsLeastNumber [i.bound, valueOf candidate] (i.tighten candidate).1.bound := by
  by_cases h : i.Improves candidate
  · rw [tighten_of_improves h]
    obtain ⟨number, improves⟩ := h
    refine ⟨List.mem_cons_of_mem _ (List.mem_singleton_self _), ?_⟩
    intro x hx known
    rcases List.mem_cons.1 hx with rfl | hx
    · rcases improves with none | hlt
      · rw [none] at known
        cases known
      · exact Binary.le_of_lt hlt
    · rw [List.mem_singleton.1 hx]
      exact Binary.le_refl number
  · rw [tighten_of_not_improves h]
    refine ⟨List.mem_cons_self, ?_⟩
    intro x hx number
    rcases List.mem_cons.1 hx with rfl | hx
    · exact Binary.le_refl number
    · rw [List.mem_singleton.1 hx] at number ⊢
      have known : i.bound.isNaN = false :=
        eq_false_of_ne_true fun none => h ⟨number, .inl none⟩
      exact Decidable.byContradiction fun hle =>
        h ⟨number, .inr ((Binary.not_le_iff known number).1 hle)⟩

/-! ## Offers one after the other -/

/-- Offers candidates one after the other, and tells which were taken. -/
def tightenAll (i : Incumbent) : List UInt64 → Incumbent × List Bool
  | [] => (i, [])
  | candidate :: rest =>
    let (i, taken) := i.tighten candidate
    let (i, answers) := i.tightenAll rest
    (i, taken :: answers)

/-- What is left after some offers. -/
def after (i : Incumbent) (candidates : List UInt64) : Incumbent := (i.tightenAll candidates).1

/-- Which offers were taken. -/
def answers (i : Incumbent) (candidates : List UInt64) : List Bool := (i.tightenAll candidates).2

/-- The offers that were taken. -/
def taken (i : Incumbent) (candidates : List UInt64) : List UInt64 :=
  (candidates.zip (i.answers candidates)).filterMap fun (candidate, taken) =>
    if taken then some candidate else Option.none

theorem answers_cons (i : Incumbent) (candidate : UInt64) (rest : List UInt64) :
    i.answers (candidate :: rest) = (i.tighten candidate).2 :: (i.tighten candidate).1.answers rest := rfl

theorem after_append (i : Incumbent) (earlier later : List UInt64) :
    i.after (earlier ++ later) = (i.after earlier).after later := by
  induction earlier generalizing i with
  | nil => rfl
  | cons candidate rest ih => exact ih _

theorem length_answers (i : Incumbent) (candidates : List UInt64) :
    (i.answers candidates).length = candidates.length := by
  induction candidates generalizing i with
  | nil => rfl
  | cons candidate rest ih => rw [answers_cons, List.length_cons, ih, List.length_cons]

/-- Every offer is answered by what the offers before it left. -/
theorem answers_getElem? {candidates : List UInt64} {k : Nat} (h : candidates[k]? = some candidate) :
    (i.answers candidates)[k]? = some ((i.after (candidates.take k)).tighten candidate).2 ∧
      i.after (candidates.take (k + 1)) = ((i.after (candidates.take k)).tighten candidate).1 := by
  induction k generalizing i candidates with
  | zero =>
    obtain ⟨rest, rfl⟩ : ∃ rest, candidates = candidate :: rest := by
      cases candidates with
      | nil => cases h
      | cons first rest => exact ⟨rest, by rw [Option.some.inj h]⟩
    exact ⟨rfl, rfl⟩
  | succ k ih =>
    cases candidates with
    | nil => cases h
    | cons first rest => exact ih h

/-- The bound after all offers is the least of the first bound and all candidates. -/
theorem isLeastNumber_after (i : Incumbent) (candidates : List UInt64) :
    IsLeastNumber (i.bound :: candidates.map valueOf) (i.after candidates).bound := by
  induction candidates generalizing i with
  | nil =>
    refine ⟨List.mem_singleton_self _, fun x hx number => ?_⟩
    obtain rfl := List.mem_singleton.1 hx
    exact Binary.le_refl number
  | cons candidate rest ih => exact (isLeastNumber_tighten i candidate).cons (ih _)

theorem taken_cons (i : Incumbent) (candidate : UInt64) (rest : List UInt64) :
    i.taken (candidate :: rest) = if (i.tighten candidate).2
      then candidate :: (i.tighten candidate).1.taken rest
      else (i.tighten candidate).1.taken rest := by
  unfold taken
  rw [answers_cons, List.zip_cons_cons, List.filterMap_cons]
  cases (i.tighten candidate).2 <;> rfl

/-- What is taken is below the bound that was there, if that is a number, and strictly decreases. -/
theorem taken_descends (i : Incumbent) (candidates : List UInt64) :
    (∀ next ∈ i.taken candidates, i.bound.isNaN = true ∨ valueOf next < i.bound) ∧
      (i.taken candidates).Pairwise fun earlier later => valueOf later < valueOf earlier := by
  induction candidates generalizing i with
  | nil => exact ⟨nofun, .nil⟩
  | cons candidate rest ih =>
    rw [taken_cons]
    by_cases h : i.Improves candidate
    · rw [tighten_of_improves h, if_pos rfl]
      obtain ⟨below, descends⟩ := ih ⟨candidate⟩
      have belowCandidate : ∀ next ∈ (⟨candidate⟩ : Incumbent).taken rest,
          valueOf next < valueOf candidate := fun next hnext =>
        (below next hnext).resolve_left fun none => Bool.false_ne_true (h.1.symm.trans none)
      refine ⟨?_, .cons belowCandidate descends⟩
      intro next hnext
      rcases List.mem_cons.1 hnext with rfl | hnext
      · exact h.2
      · rcases h.2 with none | hlt
        · exact .inl none
        · exact .inr (Binary.lt_trans (belowCandidate next hnext) hlt)
    · rw [tighten_of_not_improves h, if_neg Bool.false_ne_true]
      exact ih i

/-- A bound that is a number stays one. -/
theorem isNaN_after {candidates : List UInt64} (h : i.bound.isNaN = false) :
    (i.after candidates).bound.isNaN = false :=
  (Binary.isNaN_of_le ((isLeastNumber_after i candidates).le _ List.mem_cons_self h)).1

/-- Whatever is held first and offered then: every offer is taken exactly if it improves the bound that the
offers before it left, and is then held bit for bit, while an offer refused changes nothing. What is taken
strictly decreases. In the end the bound is one of the first bound and the candidates that no number among
them is below; it is no number only if all of them are none; and another order of the candidates ends with
an equal bound. From the first number on the bound is a number. -/
theorem keeps_running_minimum (start : Incumbent) (candidates : List UInt64) :
    ((start.answers candidates).length = candidates.length ∧
      ∀ k candidate, candidates[k]? = some candidate →
        let current := start.after (candidates.take k)
        ∃ answer, (start.answers candidates)[k]? = some answer ∧
          (answer = true ↔ (valueOf candidate).isNaN = false ∧
            (current.bound.isNaN = true ∨ valueOf candidate < current.bound)) ∧
          (start.after (candidates.take (k + 1))).bits = if answer then candidate else current.bits) ∧
    ((start.taken candidates).Pairwise fun earlier later => valueOf later < valueOf earlier) ∧
    IsLeastNumber (start.bound :: candidates.map valueOf) (start.after candidates).bound ∧
    ((start.after candidates).bound.isNaN = true ↔
      ∀ x ∈ start.bound :: candidates.map valueOf, x.isNaN = true) ∧
    (∀ others : List UInt64, others.Perm candidates →
      (start.after others).bound.place = (start.after candidates).bound.place) ∧
    ∀ earlier later, candidates = earlier ++ later → (start.after earlier).bound.isNaN = false →
      (start.after candidates).bound.isNaN = false := by
  have least := isLeastNumber_after start
  refine ⟨⟨length_answers start candidates, ?_⟩, (taken_descends start candidates).2, least candidates,
    (least candidates).isNaN_iff, ?_, ?_⟩
  · intro k candidate hk current
    obtain ⟨answered, left⟩ := answers_getElem? (i := start) hk
    obtain ⟨takenIff, held⟩ := tighten_spec current candidate
    exact ⟨_, answered, takenIff, left ▸ held⟩
  · intro others perm
    exact (least others).place_eq (least candidates) fun x => ((perm.map valueOf).cons _).mem_iff
  · rintro earlier later rfl number
    rw [after_append]
    exact isNaN_after number

/-- From no number: another one is refused, infinity and then minus zero are taken, zero is not below minus
zero, and minus five is. From the third offer on the bound is a number, and the reverse order ends with an
equal one. -/
theorem keeps_running_minimum_from_nan :
    let start : Incumbent := ⟨0xfff8000000000001⟩
    let candidates : List UInt64 :=
      [0x7ff8000000000000, 0x7ff0000000000000, 0x8000000000000000, 0, 0xc014000000000000]
    start.bound.isNaN = true ∧ start.answers candidates = [false, true, true, false, true] ∧
      (start.after candidates).bits = 0xc014000000000000 ∧
      (start.after candidates).bound.isNaN = false ∧
      (start.after candidates.reverse).bound.place = (start.after candidates).bound.place := by
  intro start candidates
  obtain ⟨-, -, -, -, reordered, number⟩ := keeps_running_minimum start candidates
  exact ⟨by decide +kernel, by decide +kernel, by decide +kernel,
    number (candidates.take 3) (candidates.drop 3) (by decide) (by decide +kernel),
    reordered candidates.reverse (List.reverse_perm candidates)⟩

end Incumbent

end BranchBound
