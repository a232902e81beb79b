/-
What volumes say. The volume multiplies the diameters in order, so it is settled by its first factors
(`volume_front_succ`), and zero times infinity is no number: where the product is zero so far and a diameter
infinite, or the other way round, the volume is lost for good (`isNaN_volume_front_iff`). Main statement
(`volume_measures_unless_lost`): any other volume is a number from zero on, zero if a component has equal
finite bounds, and not above that of a box around it (`volume_lost`: a flat box without bounds has none).
-/
import BranchBound.Region
import BranchBound.Proofs.Interval.Diameter

namespace BranchBound.Region

variable {f : Format} {r s : Region f} {a : Interval f} {n : Nat}

/-- The box of the first components. -/
def front (r : Region f) (n : Nat) : Region f := ⟨r.components.take n⟩

/-- At this component zero meets infinity: the diameters before it multiply to one of them, and its own
diameter is the other. -/
def LostAt (r : Region f) (k : Nat) (a : Interval f) : Prop :=
  ((r.front k).volume.isZero = true ∧ a.diameter.isInfinite = true) ∨
    ((r.front k).volume.isInfinite = true ∧ a.diameter.isZero = true)

/-- The boxes have as many components, and each of them is inside that of the other box. -/
def Inside (r s : Region f) : Prop :=
  r.size = s.size ∧
    ∀ k a b, r.get? k = some a → s.get? k = some b → b.containsInterval a = true

/-! ## The diameters one by one -/

theorem front_size (r : Region f) : r.front r.size = r := by
  cases r
  exact congrArg Region.mk List.take_length

theorem volume_front_succ (h : r.get? n = some a) :
    (r.front (n + 1)).volume = (r.front n).volume * a.diameter := by
  obtain ⟨hn, rfl⟩ := List.getElem?_eq_some_iff.1 h
  unfold volume diameters front
  rw [List.take_succ_eq_append_getElem hn, List.map_append, List.foldl_append]
  rfl

theorem exists_component (h : n < r.size) : ∃ a, r.get? n = some a :=
  ⟨r.components[n], List.getElem?_eq_getElem h⟩

theorem Valid.get? (hr : r.Valid) (h : r.get? n = some a) : a.Valid :=
  hr a (List.mem_of_getElem? h)

theorem Valid.diameter_nonneg (hr : r.Valid) (h : r.get? n = some a) : .zero ≤ a.diameter := by
  obtain ⟨d, hd, hnonneg⟩ := (hr.get? h).exists_diameter
  exact (Binary.le_iff_of_place Binary.place_zero hd).2 hnonneg

theorem Valid.isNaN_diameter (hr : r.Valid) (h : r.get? n = some a) : a.diameter.isNaN = false :=
  (Binary.isNaN_of_le (hr.diameter_nonneg h)).2

/-- What is lost stays lost. -/
theorem Valid.isNaN_front (hr : r.Valid) (h : r.get? n = some a)
    (number : ((r.front n).volume * a.diameter).isNaN = false) :
    (r.front n).volume.isNaN = false := by
  rw [← Bool.not_eq_true, Binary.isNaN_mul_number_iff (hr.isNaN_diameter h), not_or] at number
  exact eq_false_of_ne_true number.1

/-- The first diameters have no product exactly if zero meets infinity at one of them. -/
theorem isNaN_volume_front_iff (hr : r.Valid) (hn : n ≤ r.size) :
    (r.front n).volume.isNaN = true ↔ ∃ k < n, ∃ a, r.get? k = some a ∧ r.LostAt k a := by
  induction n with
  | zero => exact iff_of_false nofun (fun ⟨_, h, _⟩ => Nat.not_lt_zero _ h)
  | succ n ih =>
    obtain ⟨a, ha⟩ := exists_component hn
    have here : (∃ b, r.get? n = some b ∧ r.LostAt n b) ↔ r.LostAt n a := by simp [ha]
    rw [volume_front_succ ha, Binary.isNaN_mul_number_iff (hr.isNaN_diameter ha),
      ih (Nat.le_of_succ_le hn), Nat.exists_lt_succ_right, here, LostAt]

theorem volume_front_nonneg (hr : r.Valid) (hn : n ≤ r.size)
    (number : (r.front n).volume.isNaN = false) : .zero ≤ (r.front n).volume := by
  induction n with
  | zero => exact (Binary.le_iff_of_place Binary.place_zero rfl).2 (Int.natCast_nonneg _)
  | succ n ih =>
    obtain ⟨a, ha⟩ := exists_component hn
    rw [volume_front_succ ha] at number ⊢
    have := ih (Nat.le_of_succ_le hn) (hr.isNaN_front ha number)
    exact Binary.mul_nonneg this (hr.diameter_nonneg ha) number

/-- From a diameter of zero on the product is zero, unless it is lost. -/
theorem isZero_volume_front {k : Nat} (hr : r.Valid) (hn : n ≤ r.size) (hk : k < n)
    (h : r.get? k = some a) (flat : a.diameter.isZero = true)
    (number : (r.front n).volume.isNaN = false) : (r.front n).volume.isZero = true := by
  induction n with
  | zero => exact absurd hk (Nat.not_lt_zero k)
  | succ n ih =>
    obtain ⟨b, hb⟩ := exists_component hn
    rw [volume_front_succ hb] at number ⊢
    have earlier := hr.isNaN_front hb number
    refine Binary.isZero_mul number earlier (hr.isNaN_diameter hb) ?_
    rcases Nat.lt_succ_iff_lt_or_eq.1 hk with hlt | rfl
    · exact .inl (ih (Nat.le_of_succ_le hn) hlt earlier)
    · rw [h] at hb
      cases hb
      exact .inr flat

theorem Inside.valid (inside : r.Inside s) (hr : r.Valid) : s.Valid := by
  intro b hb
  obtain ⟨k, hk, rfl⟩ := List.mem_iff_getElem.1 hb
  obtain ⟨a, ha⟩ := exists_component (inside.1 ▸ hk : k < r.size)
  exact Interval.valid_of_containsInterval (hr.get? ha)
    (inside.2 k a _ ha (List.getElem?_eq_getElem hk))

/-- A box around another one has the larger product of as many diameters, if both are numbers. -/
theorem volume_front_mono (hr : r.Valid) (inside : r.Inside s) (hn : n ≤ r.size)
    (number : (r.front n).volume.isNaN = false) (number' : (s.front n).volume.isNaN = false) :
    (r.front n).volume ≤ (s.front n).volume := by
  induction n with
  | zero => exact Binary.le_refl rfl
  | succ n ih =>
    have hs := inside.valid hr
    obtain ⟨a, ha⟩ := exists_component hn
    obtain ⟨b, hb⟩ := exists_component (inside.1 ▸ hn : n < s.size)
    rw [volume_front_succ ha] at number ⊢
    rw [volume_front_succ hb] at number' ⊢
    have earlier := hr.isNaN_front ha number
    have hle := ih (Nat.le_of_succ_le hn) earlier (hs.isNaN_front hb number')
    exact Binary.mul_le_mul (volume_front_nonneg hr (Nat.le_of_succ_le hn) earlier)
      (hr.diameter_nonneg ha) hle (Interval.diameter_mono (hr.get? ha) (inside.2 n a b ha hb))
      number number'

/-! ## All diameters -/

/-- The volume of a box of intervals with their bounds in order is lost exactly if zero meets infinity at
some component. Any other volume is a number from zero on, is zero where a component has equal finite
bounds, and is at most the volume of a box around it, if that is not lost either. -/
theorem volume_measures_unless_lost (hr : r.Valid) :
    (r.volume.isNaN = true ↔ ∃ k a, r.get? k = some a ∧ r.LostAt k a) ∧
    (r.volume.isNaN = false → .zero ≤ r.volume) ∧
    (∀ a ∈ r.components, a.isDegenerate = true → a.isUnbounded = false →
      r.volume.isNaN = false → r.volume.isZero = true) ∧
    ∀ s : Region f, r.Inside s → r.volume.isNaN = false → s.volume.isNaN = false →
      r.volume ≤ s.volume := by
  have whole : (r.front r.size).volume = r.volume := congrArg volume r.front_size
  refine ⟨?_, ?_, ?_, ?_⟩
  · rw [← whole, isNaN_volume_front_iff hr (Nat.le_refl _)]
    constructor
    · rintro ⟨k, -, a, ha, lost⟩
      exact ⟨k, a, ha, lost⟩
    · rintro ⟨k, a, ha, lost⟩
      exact ⟨k, (List.getElem?_eq_some_iff.1 ha).1, a, ha, lost⟩
  · rw [← whole]
    exact volume_front_nonneg hr (Nat.le_refl _)
  · intro a ha degenerate bounded
    obtain ⟨k, hk, rfl⟩ := List.mem_iff_getElem.1 ha
    rw [← whole]
    exact isZero_volume_front hr (Nat.le_refl _) hk (List.getElem?_eq_getElem hk)
      ((Interval.isZero_diameter_iff (hr _ ha)).2 ⟨degenerate, bounded⟩)
  · intro s inside
    have whole' : (s.front r.size).volume = s.volume := by
      rw [inside.1]
      exact congrArg volume s.front_size
    rw [← whole, ← whole']
    exact volume_front_mono hr inside (Nat.le_refl _)

/-- A flat box, whose volume is zero, inside one of infinite volume. -/
theorem volume_measures_flat :
    let r : Region .binary64 := ⟨[⟨.zero, .zero⟩, ⟨.zero, .one⟩]⟩
    let s : Region .binary64 := ⟨[⟨.zero, .one⟩, ⟨.zero, .infinity⟩]⟩
    r.Valid ∧ r.Inside s ∧ r.volume.isNaN = false ∧ s.volume.isInfinite = true ∧
      r.volume.isZero = true ∧ r.volume ≤ s.volume := by
  intro r s
  have hr : r.Valid := by decide +kernel
  have inside : r.Inside s := by
    refine ⟨rfl, fun k a b ha hb => ?_⟩
    match k with
    | 0 | 1 =>
      cases ha
      cases hb
      decide +kernel
    | k + 2 => cases ha
  have number : r.volume.isNaN = false := by decide +kernel
  obtain ⟨-, -, flat, mono⟩ := volume_measures_unless_lost hr
  exact ⟨hr, inside, number, by decide +kernel,
    flat ⟨.zero, .zero⟩ List.mem_cons_self (by decide +kernel) (by decide +kernel) number,
    mono s inside number (by decide +kernel)⟩

/-- A flat box without bounds in its other variable: its volume is no number, where the product of the same
bounds is zero. -/
theorem volume_lost :
    let flat : Interval .binary64 := ⟨.zero, .zero⟩
    let r : Region .binary64 := ⟨[flat, .entire]⟩
    r.Valid ∧ flat.isDegenerate = true ∧ flat.isUnbounded = false ∧ r.volume.isNaN = true ∧
      (Interval.boundProduct flat.ub .infinity).isZero = true := by
  decide +kernel

end BranchBound.Region
