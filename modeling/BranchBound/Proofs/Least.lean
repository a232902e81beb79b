/-
Taking the least element out of a list, the first of them if there are several. Main statement
(`takeLeast?_eq_some_iff`): what comes out is less than all that stands before it, and nothing
after it is less.
-/
namespace BranchBound

variable {α : Type}

/-- Takes the least element out of a list. Of several that are not less than each other the first
one comes out. -/
def takeLeast? (less : α → α → Bool) : List α → Option (α × List α)
  | [] => none
  | a :: rest =>
    match takeLeast? less rest with
    | none => some (a, [])
    | some (b, others) => if less b a then some (b, a :: others) else some (a, rest)

variable {less : α → α → Bool}

theorem takeLeast?_eq_none_iff {l : List α} : takeLeast? less l = none ↔ l = [] := by
  cases l with
  | nil => exact iff_of_true rfl rfl
  | cons a rest =>
    refine iff_of_false ?_ (List.cons_ne_nil a rest)
    unfold takeLeast?
    split
    · exact nofun
    · split
      · exact nofun
      · exact nofun

theorem mem_of_takeLeast? {l rest : List α} {a : α} (h : takeLeast? less l = some (a, rest)) :
    a ∈ l := by
  induction l generalizing a rest with
  | nil => cases h
  | cons c l ih =>
    unfold takeLeast? at h
    split at h
    · cases h
      exact List.mem_cons_self
    · rename_i b others hl
      split at h
      · cases h
        exact List.mem_cons_of_mem _ (ih hl)
      · cases h
        exact List.mem_cons_self

/-- An element that is less than all before it, and than which nothing after it is less, comes
out. -/
theorem takeLeast?_of_first {before after : List α} {a : α}
    (hbefore : ∀ b ∈ before, less a b = true) (hafter : ∀ b ∈ after, less b a = false) :
    takeLeast? less (before ++ a :: after) = some (a, before ++ after) := by
  induction before with
  | nil =>
    rw [List.nil_append, List.nil_append, takeLeast?]
    split
    · rename_i hnone
      rw [takeLeast?_eq_none_iff.1 hnone]
    · rename_i b others hsome
      rw [hafter b (mem_of_takeLeast? hsome)]
      rfl
  | cons c before ih =>
    have ih' := ih fun b hb => hbefore b (List.mem_cons_of_mem c hb)
    rw [List.cons_append, takeLeast?, ih', List.cons_append]
    simp only [hbefore c List.mem_cons_self, if_true]

/-- For an order in which not to be less is transitive the element that comes out is the first of
the least ones. -/
theorem takeLeast?_eq_some_iff (asymm : ∀ a b, less a b = true → less b a = false)
    (cotrans : ∀ a b c, less a c = true → less a b = true ∨ less b c = true)
    {l rest : List α} {a : α} :
    takeLeast? less l = some (a, rest) ↔
      ∃ before after, l = before ++ a :: after ∧ rest = before ++ after ∧
        (∀ b ∈ before, less a b = true) ∧ ∀ b ∈ after, less b a = false := by
  constructor
  · intro h
    induction l generalizing a rest with
    | nil => cases h
    | cons c l ih =>
      unfold takeLeast? at h
      split at h
      · rename_i hnone
        cases h
        rw [takeLeast?_eq_none_iff.1 hnone]
        exact ⟨[], [], rfl, rfl, nofun, nofun⟩
      · rename_i b others hl
        obtain ⟨before, after, hl', hothers, hbefore, hafter⟩ := ih hl
        split at h
        · rename_i hless
          cases h
          refine ⟨c :: before, after, congrArg (c :: ·) hl', congrArg (c :: ·) hothers, ?_, hafter⟩
          rintro d (_ | ⟨_, hd⟩)
          · exact hless
          · exact hbefore d hd
        · rename_i hless
          cases h
          refine ⟨[], l, rfl, rfl, nofun, fun d hd => ?_⟩
          rw [← Bool.not_eq_true]
          intro hdc
          -- whatever is less than the head is less than the least of the others, or that is less
          have hdb : less d b = true := (cotrans d b c hdc).resolve_right hless
          rw [hl', List.mem_append, List.mem_cons] at hd
          rcases hd with hd | rfl | hd
          · rw [asymm b d (hbefore d hd)] at hdb
            cases hdb
          · exact hless hdc
          · rw [hafter d hd] at hdb
            cases hdb
  · rintro ⟨before, after, rfl, rfl, hbefore, hafter⟩
    exact takeLeast?_of_first hbefore hafter

end BranchBound
