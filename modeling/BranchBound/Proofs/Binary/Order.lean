/-
The order of numbers by their places. A number has a place and a value that is no number has none
(`exists_place`), so every comparison between numbers is one between integers, and the smaller and the
larger of two numbers have the smaller and the larger place (`place_min`, `place_max`).
-/
import BranchBound.Binary.Arithmetic

namespace BranchBound

theorem Format.two_le_code (f : Format) : 2 * 2 ^ f.fractionBits < f.infinityCode := by
  have hexponents : 2 ^ 2 ≤ 2 ^ f.exponentBits :=
    Nat.pow_le_pow_right (by decide) f.two_le_exponentBits
  have hp := Nat.two_pow_pos f.fractionBits
  have hcode : 3 * 2 ^ f.fractionBits ≤ f.infinityCode :=
    Nat.mul_le_mul_right _ (by omega)
  omega

namespace Binary

variable {f : Format} {a b c : Binary f} {x y : Int}

/-! ## Places -/

theorem exists_place (h : a.isNaN = false) : ∃ x, a.place = some x := by
  cases a with
  | nan => cases h
  | number negative code bounded => exact ⟨_, rfl⟩

theorem isNaN_of_place (h : a.place = some x) : a.isNaN = false := by
  cases a with
  | nan => cases h
  | number negative code bounded => rfl

/-- No place is beyond infinity. -/
theorem natAbs_place_le (h : a.place = some x) : x.natAbs ≤ f.infinityCode := by
  cases a with
  | nan => cases h
  | number negative code bounded =>
    cases h
    cases negative <;> simpa using bounded

theorem place_zero : (zero : Binary f).place = some 0 := rfl

theorem place_infinity : (infinity : Binary f).place = some (f.infinityCode : Int) := rfl

theorem place_negInfinity : (negInfinity : Binary f).place = some (-f.infinityCode : Int) := rfl

theorem isInfinite_iff (h : a.place = some x) : a.isInfinite = true ↔ x.natAbs = f.infinityCode := by
  cases a with
  | nan => cases h
  | number negative code bounded =>
    cases h
    cases negative <;> simp [isInfinite]

theorem isZero_iff (h : a.place = some x) : a.isZero = true ↔ x = 0 := by
  cases a with
  | nan => cases h
  | number negative code bounded =>
    cases h
    cases negative <;> simp [isZero]

/-! ## Comparisons -/

theorem compare?_eq_some (ha : a.place = some x) (hb : b.place = some y) :
    a.compare? b = some (compare x y) := by
  unfold compare?
  rw [ha, hb]

theorem lt_iff_of_place (ha : a.place = some x) (hb : b.place = some y) : a < b ↔ x < y := by
  rw [lt_iff]
  constructor
  · rintro ⟨x', y', ha', hb', h⟩
    rw [ha] at ha'
    rw [hb] at hb'
    cases ha'
    cases hb'
    exact h
  · intro h
    exact ⟨x, y, ha, hb, h⟩

theorem le_iff_of_place (ha : a.place = some x) (hb : b.place = some y) : a ≤ b ↔ x ≤ y := by
  rw [le_iff]
  constructor
  · rintro ⟨x', y', ha', hb', h⟩
    rw [ha] at ha'
    rw [hb] at hb'
    cases ha'
    cases hb'
    exact h
  · intro h
    exact ⟨x, y, ha, hb, h⟩

theorem equals_iff_of_place (ha : a.place = some x) (hb : b.place = some y) :
    a.equals b = true ↔ x = y := by
  rw [equals_iff, ha, hb]
  constructor
  · rintro ⟨z, hx, hy⟩
    cases hx
    cases hy
    rfl
  · rintro rfl
    exact ⟨x, rfl, rfl⟩

theorem lt_asymm (h : a < b) : ¬ b < a := by
  obtain ⟨x, y, ha, hb, hlt⟩ := lt_iff.1 h
  rw [lt_iff_of_place hb ha]
  omega

theorem lt_irrefl : ¬ a < a := fun h => lt_asymm h h

theorem le_of_lt (h : a < b) : a ≤ b := by
  obtain ⟨x, y, ha, hb, hlt⟩ := lt_iff.1 h
  exact (le_iff_of_place ha hb).2 (Int.le_of_lt hlt)

theorem lt_trans (h : a < b) (h' : b < c) : a < c := by
  obtain ⟨x, y, ha, hb, hlt⟩ := lt_iff.1 h
  obtain ⟨y', z, hb', hc, hlt'⟩ := lt_iff.1 h'
  rw [hb] at hb'
  cases hb'
  exact (lt_iff_of_place ha hc).2 (Int.lt_trans hlt hlt')

/-- A number is above the less or below the greater of any two. -/
theorem lt_cotrans (hb : b.isNaN = false) (h : a < c) : a < b ∨ b < c := by
  obtain ⟨x, z, ha, hc, hlt⟩ := lt_iff.1 h
  obtain ⟨y, hb⟩ := exists_place hb
  rw [lt_iff_of_place ha hb, lt_iff_of_place hb hc]
  omega

theorem isNaN_of_le (h : a ≤ b) : a.isNaN = false ∧ b.isNaN = false := by
  obtain ⟨x, y, ha, hb, _⟩ := le_iff.1 h
  exact ⟨isNaN_of_place ha, isNaN_of_place hb⟩

theorem le_refl (h : a.isNaN = false) : a ≤ a := by
  obtain ⟨x, hx⟩ := exists_place h
  exact (le_iff_of_place hx hx).2 (Int.le_refl x)

theorem le_trans (h : a ≤ b) (h' : b ≤ c) : a ≤ c := by
  obtain ⟨x, y, ha, hb, hle⟩ := le_iff.1 h
  obtain ⟨y', z, hb', hc, hle'⟩ := le_iff.1 h'
  rw [hb] at hb'
  cases hb'
  exact (le_iff_of_place ha hc).2 (Int.le_trans hle hle')

theorem lt_of_le_of_lt (h : a ≤ b) (h' : b < c) : a < c := by
  obtain ⟨x, y, ha, hb, hle⟩ := le_iff.1 h
  obtain ⟨y', z, hb', hc, hlt⟩ := lt_iff.1 h'
  rw [hb] at hb'
  cases hb'
  exact (lt_iff_of_place ha hc).2 (Int.lt_of_le_of_lt hle hlt)

theorem equals_iff_le : a.equals b = true ↔ a ≤ b ∧ b ≤ a := by
  rw [equals_iff]
  constructor
  · rintro ⟨x, ha, hb⟩
    exact ⟨(le_iff_of_place ha hb).2 (Int.le_refl x), (le_iff_of_place hb ha).2 (Int.le_refl x)⟩
  · rintro ⟨h, h'⟩
    obtain ⟨x, y, ha, hb, hle⟩ := le_iff.1 h
    rw [le_iff_of_place hb ha] at h'
    obtain rfl : x = y := Int.le_antisymm hle h'
    exact ⟨x, ha, hb⟩

/-- A number that is not at most another one is above it. -/
theorem not_le_iff (ha : a.isNaN = false) (hb : b.isNaN = false) : ¬ a ≤ b ↔ b < a := by
  obtain ⟨x, hx⟩ := exists_place ha
  obtain ⟨y, hy⟩ := exists_place hb
  rw [le_iff_of_place hx hy, lt_iff_of_place hy hx, Int.not_le]

/-! ## The smaller and the larger of two numbers -/

theorem place_min (ha : a.place = some x) (hb : b.place = some y) :
    (a.min b).place = some (min x y) := by
  unfold Binary.min
  simp only [isNaN_of_place ha, le_iff_of_place hb ha, Bool.false_or, decide_eq_true_eq]
  split
  · rw [hb, Int.min_eq_right ‹_›]
  · rw [ha, Int.min_eq_left (by omega)]

theorem place_max (ha : a.place = some x) (hb : b.place = some y) :
    (a.max b).place = some (max x y) := by
  unfold Binary.max
  simp only [isNaN_of_place ha, le_iff_of_place ha hb, Bool.false_or, decide_eq_true_eq]
  split
  · rw [hb, Int.max_eq_right ‹_›]
  · rw [ha, Int.max_eq_left (by omega)]

/-- The smaller of two numbers bounds what both of them bound. -/
theorem le_min_iff (ha : a.isNaN = false) (hb : b.isNaN = false) : c ≤ a.min b ↔ c ≤ a ∧ c ≤ b := by
  obtain ⟨x, hx⟩ := exists_place ha
  obtain ⟨y, hy⟩ := exists_place hb
  cases hc : c.place with
  | none => simp [le_iff, hc]
  | some z =>
    rw [le_iff_of_place hc (place_min hx hy), le_iff_of_place hc hx, le_iff_of_place hc hy]
    exact Int.le_min

theorem max_le_iff (ha : a.isNaN = false) (hb : b.isNaN = false) : a.max b ≤ c ↔ a ≤ c ∧ b ≤ c := by
  obtain ⟨x, hx⟩ := exists_place ha
  obtain ⟨y, hy⟩ := exists_place hb
  cases hc : c.place with
  | none => simp [le_iff, hc]
  | some z =>
    rw [le_iff_of_place (place_max hx hy) hc, le_iff_of_place hx hc, le_iff_of_place hy hc]
    exact Int.max_le

theorem min_eq_or (a b : Binary f) : a.min b = a ∨ a.min b = b := by
  unfold Binary.min
  split
  · exact .inr rfl
  · exact .inl rfl

theorem max_eq_or (a b : Binary f) : a.max b = a ∨ a.max b = b := by
  unfold Binary.max
  split
  · exact .inr rfl
  · exact .inl rfl

/-! ## Infinities -/

theorem le_infinity (h : a.isNaN = false) : a ≤ infinity := by
  obtain ⟨x, hx⟩ := exists_place h
  have := natAbs_place_le hx
  rw [le_iff_of_place hx place_infinity]
  omega

theorem negInfinity_le (h : a.isNaN = false) : negInfinity ≤ a := by
  obtain ⟨x, hx⟩ := exists_place h
  have := natAbs_place_le hx
  rw [le_iff_of_place place_negInfinity hx]
  omega

/-- But for the two zeros no two numbers share a place. -/
theorem eq_of_place (ha : a.place = some x) (hb : b.place = some x) (h : x ≠ 0) : a = b := by
  cases a with
  | nan => cases ha
  | number n c hc =>
    cases b with
    | nan => cases hb
    | number m d hd =>
      have hn : (if n then -(c : Int) else c) = x := Option.some.inj ha
      have hm : (if m then -(d : Int) else d) = x := Option.some.inj hb
      cases n <;> cases m <;> simp only [Bool.false_eq_true, if_true, if_false] at hn hm
      · obtain rfl : c = d := by omega
        rfl
      · omega
      · omega
      · obtain rfl : c = d := by omega
        rfl

theorem eq_infinity_of_le (h : infinity ≤ a) : a = infinity := by
  obtain ⟨x, y, hinfinity, ha, hle⟩ := le_iff.1 h
  rw [place_infinity] at hinfinity
  cases hinfinity
  have := natAbs_place_le ha
  have := f.two_le_code
  obtain rfl : y = f.infinityCode := by omega
  exact eq_of_place ha place_infinity (by omega)

theorem eq_negInfinity_of_le (h : a ≤ negInfinity) : a = negInfinity := by
  obtain ⟨x, y, ha, hinfinity, hle⟩ := le_iff.1 h
  rw [place_negInfinity] at hinfinity
  cases hinfinity
  have := natAbs_place_le ha
  have := f.two_le_code
  obtain rfl : x = -f.infinityCode := by omega
  exact eq_of_place ha place_negInfinity (by omega)

/-- A number is finite or one of the infinities. -/
theorem infinity_or_finite (h : a.isNaN = false) :
    a = negInfinity ∨ a = infinity ∨ a.isFinite = true := by
  cases a with
  | nan => cases h
  | number negative code bounded =>
    by_cases hcode : code = f.infinityCode
    · subst hcode
      cases negative
      · exact .inr (.inl rfl)
      · exact .inl rfl
    · exact .inr (.inr (by simpa [isFinite] using hcode))

/-! ## Negation -/

theorem neg_le_neg (h : a ≤ b) : -b ≤ -a := by
  obtain ⟨x, y, ha, hb, hle⟩ := le_iff.1 h
  have ha' : (-a).place = some (-x) := by rw [place_neg, ha]; rfl
  have hb' : (-b).place = some (-y) := by rw [place_neg, hb]; rfl
  exact (le_iff_of_place hb' ha').2 (by omega)

end Binary

end BranchBound
