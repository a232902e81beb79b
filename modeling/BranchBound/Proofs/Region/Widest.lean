/-
Which component is the widest. The search for it and the largest diameter are two scans of the same
diameters, and one more component moves both of them alike (`scan_succ`, `maxDiameter_front_succ`): to
that component if it is wider than all before it, else nowhere. So after every number of components
the search stands at the first of the widest ones so far, and its diameter is the largest so far
(`scan_finds`). Main statement (`widest_leads`): a box has a widest component unless it is empty, and it is
the one component of the largest diameter with none as wide before it.
-/
import BranchBound.Proofs.Region.Volume

namespace BranchBound.Region

variable {f : Format} {r : Region f} {a b : Interval f} {i j k n : Nat}

/-- Of the first `n` components the one at `i` is as wide as any, and wider than those before it. -/
structure LeadsAmong (r : Region f) (n i : Nat) (a : Interval f) : Prop where
  lt : i < n
  get : r.get? i = some a
  widest : ∀ k < n, ∀ b, r.get? k = some b → b.diameter ≤ a.diameter
  first : ∀ k < i, ∀ b, r.get? k = some b → b.diameter < a.diameter

/-- Where the search for the widest component stands after the first `n` components. -/
def scan (r : Region f) (n : Nat) : Option (Nat × Binary f) :=
  (r.front n).diameters.zipIdx.foldl widerOf none

/-! ## One more component -/

theorem diameters_front_succ (h : r.get? n = some a) :
    (r.front (n + 1)).diameters = (r.front n).diameters ++ [a.diameter] := by
  obtain ⟨hn, rfl⟩ := List.getElem?_eq_some_iff.1 h
  simp only [diameters, front, List.take_succ_eq_append_getElem hn, List.map_append]
  rfl

theorem scan_succ (h : r.get? n = some a) : r.scan (n + 1) = widerOf (r.scan n) (a.diameter, n) := by
  obtain ⟨hn, -⟩ := List.getElem?_eq_some_iff.1 h
  have hlength : (r.front n).diameters.length = n := by simp [diameters, front]; omega
  simp [scan, diameters_front_succ h, List.zipIdx_append, hlength]

theorem maxDiameter_front_succ (h : r.get? n = some a) :
    (r.front (n + 1)).maxDiameter = (r.front n).maxDiameter.max a.diameter := by
  simp [maxDiameter, diameters_front_succ h]

/-- A component that is not wider leaves the first of the widest where it is. -/
theorem LeadsAmong.keep (h : r.LeadsAmong n i a) (hb : r.get? n = some b)
    (hle : b.diameter ≤ a.diameter) : r.LeadsAmong (n + 1) i a where
  lt := Nat.lt_succ_of_lt h.lt
  get := h.get
  widest k hk c hc := by
    rcases Nat.lt_succ_iff_lt_or_eq.1 hk with hk | rfl
    · exact h.widest k hk c hc
    · rw [hb] at hc
      cases hc
      exact hle
  first := h.first

/-- A wider component is the first of the widest from then on. -/
theorem LeadsAmong.overtake (h : r.LeadsAmong n i a) (hb : r.get? n = some b)
    (hlt : a.diameter < b.diameter) : r.LeadsAmong (n + 1) n b := by
  have hbelow (k : Nat) (hk : k < n) (c : Interval f) (hc : r.get? k = some c) :
      c.diameter < b.diameter := Binary.lt_of_le_of_lt (h.widest k hk c hc) hlt
  refine ⟨Nat.lt_succ_self n, hb, fun k hk c hc => ?_, hbelow⟩
  rcases Nat.lt_succ_iff_lt_or_eq.1 hk with hk | rfl
  · exact Binary.le_of_lt (hbelow k hk c hc)
  · rw [hb] at hc
    cases hc
    exact Binary.le_refl (Binary.isNaN_of_le (Binary.le_of_lt hlt)).2

/-! ## All components -/

/-- After one component or more both scans have found the first of the widest. -/
theorem scan_finds (hr : r.Valid) (hn : n < r.size) :
    ∃ i a, r.LeadsAmong (n + 1) i a ∧ r.scan (n + 1) = some (i, a.diameter) ∧
      (r.front (n + 1)).maxDiameter.equals a.diameter = true := by
  induction n with
  | zero =>
    obtain ⟨b, hb⟩ := exists_component hn
    obtain ⟨d, hd, hnonneg⟩ := (hr.get? hb).exists_diameter
    refine ⟨0, b, ⟨Nat.one_pos, hb, fun k hk c hc => ?_, nofun⟩, scan_succ hb, ?_⟩
    · obtain rfl : k = 0 := by omega
      rw [hb] at hc
      cases hc
      exact Binary.le_refl (hr.isNaN_diameter hb)
    · rw [maxDiameter_front_succ hb]
      show (Binary.max .zero b.diameter).equals b.diameter = true
      rw [Binary.equals_iff_of_place (Binary.place_max Binary.place_zero hd) hd]
      omega
  | succ n ih =>
    obtain ⟨i, a, leads, hscan, hmax⟩ := ih (Nat.lt_of_succ_lt hn)
    obtain ⟨b, hb⟩ := exists_component hn
    obtain ⟨x, hx, ha⟩ := Binary.equals_iff.1 hmax
    obtain ⟨y, hy, -⟩ := (hr.get? hb).exists_diameter
    have hstep : r.scan (n + 2) =
        if b.diameter ≤ a.diameter then some (i, a.diameter) else some (n + 1, b.diameter) := by
      rw [scan_succ hb, hscan]
      rfl
    rw [maxDiameter_front_succ hb, hstep]
    by_cases hle : b.diameter ≤ a.diameter
    · refine ⟨i, a, leads.keep hb hle, if_pos hle, ?_⟩
      rw [Binary.le_iff_of_place hy ha] at hle
      rw [Binary.equals_iff_of_place (Binary.place_max hx hy) ha]
      omega
    · refine ⟨n + 1, b, leads.overtake hb ?_, if_neg hle, ?_⟩
      · rwa [← Binary.not_le_iff (Binary.isNaN_of_place hy) (Binary.isNaN_of_place ha)]
      · rw [Binary.le_iff_of_place hy ha] at hle
        rw [Binary.equals_iff_of_place (Binary.place_max hx hy) hy]
        omega

/-- No two components are the first of the widest. -/
theorem LeadsAmong.unique (h : r.LeadsAmong n i a) (h' : r.LeadsAmong n j b) : i = j := by
  rcases Nat.lt_trichotomy i j with hlt | rfl | hlt
  · have hba := h.widest j h'.lt b h'.get
    exact absurd (Binary.lt_of_le_of_lt hba (h'.first i hlt a h.get)) Binary.lt_irrefl
  · rfl
  · have hab := h'.widest i h.lt a h.get
    exact absurd (Binary.lt_of_le_of_lt hab (h.first j hlt b h'.get)) Binary.lt_irrefl

/-- In a box of intervals with their bounds in order every diameter is a number from zero on. The box has
a widest component unless it is empty. That is the one component of the largest diameter with none as wide
before it, and its diameter is the largest diameter of the box, which is zero for an empty one. -/
theorem widest_leads (hr : r.Valid) :
    (∀ a ∈ r.components, a.diameter.isNaN = false ∧ .zero ≤ a.diameter) ∧
    (r.widest = none ↔ r.isEmpty = true) ∧
    (∀ i, r.widest = some i ↔ ∃ a, r.LeadsAmong r.size i a) ∧
    (∀ i a, r.LeadsAmong r.size i a → a.diameter.equals r.maxDiameter = true) ∧
    (r.isEmpty = true → r.maxDiameter = .zero) := by
  have hwidest : r.widest = (r.scan r.size).map (·.1) := by rw [scan, front_size, widest]
  have hdiameters (a : Interval f) (ha : a ∈ r.components) :
      a.diameter.isNaN = false ∧ .zero ≤ a.diameter := by
    obtain ⟨k, hk⟩ := List.mem_iff_getElem?.1 ha
    exact ⟨hr.isNaN_diameter hk, hr.diameter_nonneg hk⟩
  have hempty : r.isEmpty = true ↔ r.size = 0 := by simp [isEmpty, size]
  rw [hwidest, hempty]
  cases hsize : r.size with
  | zero =>
    have hnone (i : Nat) (a : Interval f) : ¬ r.LeadsAmong 0 i a := fun h => Nat.not_lt_zero i h.lt
    have hcomponents : r.components = [] := List.eq_nil_of_length_eq_zero hsize
    simp [hnone, hcomponents, scan, front, diameters, maxDiameter]
  | succ n =>
    obtain ⟨i, a, leads, hscan, hmax⟩ := scan_finds hr (show n < r.size by omega)
    rw [← hsize, front_size] at hmax
    refine ⟨hdiameters, by simp [hscan], fun j => ?_, fun j b hj => ?_, nofun⟩
    · rw [hscan]
      constructor
      · rintro ⟨⟩
        exact ⟨a, leads⟩
      · rintro ⟨b, hj⟩
        exact congrArg some (leads.unique hj)
    · obtain rfl := leads.unique hj
      obtain rfl : a = b := Option.some.inj (leads.get.symm.trans hj.get)
      obtain ⟨x, hx, ha⟩ := Binary.equals_iff.1 hmax
      exact (Binary.equals_iff_of_place ha hx).2 rfl

/-- Two components without bounds, one of which holds infinity alone, and one that holds zero alone before
them: the first of the two is the widest. -/
theorem widest_leads_infinite :
    let r : Region .binary64 := ⟨[⟨.zero, .zero⟩, ⟨.infinity, .infinity⟩, .entire]⟩
    r.Valid ∧ r.widest = some 1 ∧ r.maxDiameter = .infinity ∧
      r.LeadsAmong 3 1 ⟨.infinity, .infinity⟩ ∧
      (Interval.diameter (⟨.infinity, .infinity⟩ : Interval .binary64)).equals r.maxDiameter = true := by
  intro r
  have hr : r.Valid := by decide +kernel
  obtain ⟨-, -, leads, largest, -⟩ := widest_leads hr
  have hwidest : r.widest = some 1 := by decide +kernel
  obtain ⟨a, ha⟩ := (leads 1).1 hwidest
  obtain rfl : a = ⟨.infinity, .infinity⟩ := (Option.some.inj ha.get).symm
  exact ⟨hr, hwidest, by decide +kernel, ha, largest 1 _ ha⟩

end BranchBound.Region
