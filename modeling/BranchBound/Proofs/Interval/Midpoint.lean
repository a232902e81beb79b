/-
Where midpoints lie. The halves of the bounds are rounded before they are added, and the half of a finite
number is off by half a unit exactly if the number of its units is odd (`exactUnits_half`). Between
different bounds that is never enough to leave the interval. Main statement (`contains_midpoint_iff`): the
midpoint lies in the interval unless the bounds are equal and either infinite, where it is zero, or odd,
where both halves are off to the same side (`midpoint_outside`).
-/
import BranchBound.Proofs.Interval.Diameter

namespace BranchBound

namespace Format

variable (f : Format)

/-- The code of two is one exponent above that of one. -/
def twoCode : Nat := f.oneCode + 2 ^ f.fractionBits

/-- One is a power of two of units, and two is the next one. -/
theorem units_one_two :
    f.units f.oneCode = 2 ^ f.unitScale ∧ f.units f.twoCode = 2 ^ (f.unitScale + 1) := by
  have hbias : 2 ^ 1 ≤ 2 ^ (f.exponentBits - 1) :=
    Nat.pow_le_pow_right (by decide) (by have := f.two_le_exponentBits; omega)
  have hp := Nat.two_pow_pos f.fractionBits
  obtain ⟨s, hs⟩ : ∃ s, 2 ^ (f.exponentBits - 1) = s + 2 :=
    ⟨2 ^ (f.exponentBits - 1) - 2, by omega⟩
  have hone : f.oneCode = s * 2 ^ f.fractionBits + 2 ^ f.fractionBits := by
    rw [oneCode, hs, ← Nat.succ_mul]
    rfl
  have htwo : f.twoCode = (s + 1) * 2 ^ f.fractionBits + 2 ^ f.fractionBits := by
    rw [twoCode, hone, Nat.succ_mul]
  have hscale : f.unitScale = f.fractionBits + s := by
    rw [unitScale, hs]
    omega
  have htop : 2 ^ f.fractionBits < 2 ^ (f.fractionBits + 1) := by
    rw [f.pow_succ_fractionBits]
    omega
  rw [hone, htwo, f.units_scaled s _ (Nat.le_refl _) htop,
    f.units_scaled (s + 1) _ (Nat.le_refl _) htop, hscale]
  exact ⟨(Nat.pow_add ..).symm, (Nat.pow_add ..).symm⟩

theorem twoCode_lt : f.twoCode < f.infinityCode := by
  obtain ⟨e, he⟩ : ∃ e, f.exponentBits = e + 2 :=
    ⟨f.exponentBits - 2, by have := f.two_le_exponentBits; omega⟩
  have hp := Nat.two_pow_pos f.fractionBits
  have hpow := Nat.two_pow_pos e
  have htwo : f.twoCode = 2 ^ (e + 1) * 2 ^ f.fractionBits := by
    rw [twoCode, oneCode, he, show e + 2 - 1 = e + 1 from rfl, ← Nat.succ_mul]
    congr 1
    rw [Nat.pow_succ]
    omega
  rw [htwo, infinityCode, he]
  refine Nat.mul_lt_mul_of_pos_right ?_ hp
  rw [Nat.pow_succ 2 (e + 1), Nat.pow_succ 2 e]
  omega

/-! ## Halves of codes -/

/-- The units of the half of a code: half of the units, or next to it if these are odd. -/
theorem units_half {code : Nat} (h : code < f.infinityCode) :
    f.units code ≤ 2 * f.units (f.nearestCode (f.units code) 2) + 1 ∧
      2 * f.units (f.nearestCode (f.units code) 2) ≤ f.units code + 1 := by
  have hp := Nat.two_pow_pos f.fractionBits
  have hpow := f.pow_succ_fractionBits
  by_cases small : code < 2 ^ (f.fractionBits + 1)
  · -- the half is between the whole numbers of units below and above
    have whole (n : Nat) (hn : n ≤ code) : f.nearestCode (2 * n) 2 = n := by
      rw [f.nearestCode_congr (by decide) (by decide) (show 2 * n * 1 = n * 2 by omega)]
      have := f.nearestCode_units (show n ≤ f.infinityCode by omega)
      rwa [f.units_of_lt (by omega)] at this
    rw [f.units_of_lt small]
    have lower : code / 2 ≤ f.nearestCode code 2 := by
      rw [← whole (code / 2) (Nat.div_le_self ..)]
      exact f.nearestCode_mono (by decide) (by decide) (by omega)
    have upper : f.nearestCode code 2 ≤ (code + 1) / 2 := by
      rw [← whole ((code + 1) / 2) (by omega)]
      exact f.nearestCode_mono (by decide) (by decide) (by omega)
    rw [f.units_of_lt (by omega : f.nearestCode code 2 < 2 ^ (f.fractionBits + 1))]
    omega
  · -- from two full significands on the half has one doubling less
    obtain ⟨s, m, hcode, hs, hm, hunits, -⟩ := f.exists_doublings code
    obtain ⟨s, rfl⟩ : ∃ t, s = t + 1 := by
      cases s with
      | zero => omega
      | succ t => exact ⟨t, rfl⟩
    have hm' : 2 ^ f.fractionBits ≤ m := hs.resolve_left (Nat.succ_ne_zero s)
    have half := f.units_scaled s m hm' hm
    have hle : s * 2 ^ f.fractionBits + m ≤ f.infinityCode := by
      rw [hcode, Nat.succ_mul] at h
      omega
    have hround := f.nearestCode_units hle
    rw [half] at hround
    have hdouble : f.units code = m * 2 ^ s * 2 := by rw [hunits, Nat.pow_succ, Nat.mul_assoc]
    rw [hdouble, f.nearestCode_congr (by decide) (by decide) (Nat.mul_one _ : _ * 2 * 1 = m * 2 ^ s * 2),
      hround, half]
    omega

theorem nearestCode_half_le {code : Nat} (h : code ≤ f.infinityCode) :
    f.nearestCode (f.units code) 2 ≤ code := by
  have := f.nearestCode_mono (by decide) (by decide)
    (show f.units code * 1 ≤ f.units code * 2 by omega)
  rwa [f.nearestCode_units h] at this

end Format

namespace Binary

variable {f : Format} {a : Binary f}

/-! ## Halves of numbers -/

theorem one_add_one :
    (one + one : Binary f) = number false f.twoCode (Nat.le_of_lt f.twoCode_lt) := by
  obtain ⟨hone, htwo⟩ := f.units_one_two
  have hp := Nat.two_pow_pos f.unitScale
  have finite : f.oneCode ≠ f.infinityCode :=
    Nat.ne_of_lt (Nat.lt_of_le_of_lt (Nat.le_add_right ..) f.twoCode_lt)
  have htotal : f.signedUnits false f.oneCode + f.signedUnits false f.oneCode
      = (f.units f.twoCode : Int) := by
    simp only [Format.signedUnits, Bool.false_eq_true, if_false, hone, htwo, Nat.pow_succ]
    omega
  show Binary.add one one = _
  simp only [Binary.add, one, if_neg finite, htotal]
  rw [if_neg (by rw [htwo, Nat.pow_succ]; omega), decide_eq_false (by omega), ofUnits]
  simp only [Int.natAbs_natCast, f.nearestCode_units (Nat.le_of_lt f.twoCode_lt)]

/-- The half of a finite number is the number nearest to half of its units. -/
theorem half_eq {negative : Bool} {code : Nat} {bounded : code ≤ f.infinityCode}
    (finite : code ≠ f.infinityCode) :
    number negative code bounded / (one + one) = ofUnits negative (f.units code) 2 := by
  obtain ⟨-, htwo⟩ := f.units_one_two
  have hp := Nat.two_pow_pos f.unitScale
  have hlt := f.twoCode_lt
  have hpos : f.twoCode ≠ 0 := by
    have := Nat.two_pow_pos f.fractionBits
    unfold Format.twoCode
    omega
  rw [one_add_one]
  show Binary.div (number negative code bounded) (number false f.twoCode _) = _
  simp only [Binary.div, if_neg finite, if_neg (Nat.ne_of_lt hlt), if_neg hpos, Bool.bne_false, htwo]
  refine ofUnits_congr negative (Nat.two_pow_pos _) (by decide) ?_
  rw [Nat.pow_succ, Nat.mul_assoc]

/-- The half of a finite number is finite, and twice its units are those of the number or next to it. -/
theorem exactUnits_half (h : a.isFinite = true) : (a / (one + one)).isFinite = true ∧
    a.exactUnits ≤ 2 * (a / (one + one)).exactUnits + 1 ∧
    2 * (a / (one + one)).exactUnits ≤ a.exactUnits + 1 := by
  cases a with
  | nan => cases h
  | number negative code bounded =>
    have finite : code ≠ f.infinityCode := by simpa [isFinite] using h
    have hle := f.nearestCode_half_le bounded
    have hhalf := f.units_half (Nat.lt_of_le_of_ne bounded finite)
    rw [half_eq finite, ofUnits]
    refine ⟨by simp only [isFinite, bne_iff_ne]; omega, ?_⟩
    cases negative <;> simp only [exactUnits, Format.signedUnits, Bool.false_eq_true, if_true,
      if_false] <;> omega

theorem place_ne_zero_of_odd {x : Int} (ha : a.place = some x) (odd : a.exactUnits % 2 = 1) :
    x ≠ 0 := by
  rintro rfl
  have hzero : (zero : Binary f).exactUnits = 0 := congrArg Int.ofNat f.units_zero
  have hle := exactUnits_le_iff ha place_zero
  have hge := exactUnits_le_iff (f := f) place_zero ha
  omega

theorem natAbs_exactUnits (negative : Bool) {code : Nat} (bounded : code ≤ f.infinityCode) :
    (number negative code bounded).exactUnits.natAbs = f.units code := by
  cases negative <;> simp [exactUnits, Format.signedUnits]

/-- An odd number of units is below two full significands. -/
theorem natAbs_exactUnits_lt (odd : a.exactUnits % 2 = 1) :
    a.exactUnits.natAbs < 2 * 2 ^ f.fractionBits := by
  replace odd : a.exactUnits.natAbs % 2 = 1 := by omega
  cases a with
  | nan => cases odd
  | number negative code bounded =>
    rw [natAbs_exactUnits] at odd ⊢
    rw [← f.pow_succ_fractionBits]
    by_cases small : code < 2 ^ (f.fractionBits + 1)
    · rwa [f.units_of_lt small]
    · -- from there on the units are a significand doubled at least once
      obtain ⟨s, m, hm, -, hlt, hunits, -⟩ := f.exists_doublings code
      cases s with
      | zero => omega
      | succ s =>
        rw [hunits, Nat.pow_succ, ← Nat.mul_assoc] at odd
        omega

end Binary

namespace Interval

variable {f : Format} {a : Interval f}

/-! ## Midpoints -/

/-- The midpoint of a bounded interval is in the place nearest to the sum of the halves of its bounds. -/
theorem Valid.place_midpoint (ha : a.Valid) (bounded : a.isUnbounded = false) :
    a.midpoint.place = some (f.signedCode
      ((a.lb / (.one + .one)).exactUnits + (a.ub / (.one + .one)).exactUnits) 1) := by
  obtain ⟨lower, upper⟩ := ha.isFinite bounded
  obtain ⟨lowerInfinite, upperInfinite⟩ := Bool.or_eq_false_iff.1 bounded
  rw [midpoint, lowerInfinite, upperInfinite]
  exact Binary.place_add (Binary.exactUnits_half lower).1 (Binary.exactUnits_half upper).1

/-- Where the bounds are different, the midpoint of a bounded interval lies in it. Where they are equal,
the halves have the same units, so that it is their double. -/
theorem Valid.contains_midpoint_iff_of_bounded (ha : a.Valid) (bounded : a.isUnbounded = false) :
    a.contains a.midpoint = true ↔ (a.isDegenerate = true → a.lb.exactUnits % 2 = 0) := by
  obtain ⟨lower, upper⟩ := ha.isFinite bounded
  obtain ⟨l, u, hl, hu, hlu⟩ := Binary.le_iff.1 ha
  obtain ⟨-, lowerAbove, lowerBelow⟩ := Binary.exactUnits_half lower
  obtain ⟨-, upperAbove, upperBelow⟩ := Binary.exactUnits_half upper
  have ordered := ha.exactUnits_le
  rw [contains_iff, Binary.le_iff_of_place hl (ha.place_midpoint bounded),
    Binary.le_iff_of_place (ha.place_midpoint bounded) hu, isDegenerate_iff ha,
    ← Binary.signedCode_exactUnits hl, ← Binary.signedCode_exactUnits hu]
  constructor
  · rintro ⟨hlower, hupper⟩ heq
    rcases Int.emod_two_eq a.lb.exactUnits with even | odd
    · exact even
    · -- the halves are one number, and their sum and the bound are small enough to be exact
      have hul := (Binary.exactUnits_le_iff hu hl).1 (by omega)
      obtain rfl : l = u := by omega
      have hsame := Binary.eq_of_place hu hl (Binary.place_ne_zero_of_odd hl odd)
      rw [hsame] at upperAbove upperBelow hlower hupper
      have hsmall := Binary.natAbs_exactUnits_lt odd
      have hbound := f.signedCode_eq_self (Nat.le_of_lt hsmall)
      rw [hbound, f.signedCode_eq_self (show ((a.lb / (.one + .one)).exactUnits
        + (a.lb / (.one + .one)).exactUnits).natAbs ≤ _ by omega)] at hlower hupper
      omega
  · intro heven
    have mono {m n : Int} (h : m ≤ n) : f.signedCode m 1 ≤ f.signedCode n 1 :=
      f.signedCode_mono (by decide) (by decide) (by omega)
    rcases Int.lt_or_eq_of_le ordered with hlt | heq
    · exact ⟨mono (by omega), mono (by omega)⟩
    · have := heven heq
      exact ⟨mono (by omega), mono (by omega)⟩

/-- The midpoint of an unbounded interval: zero, or the finite number farthest from its one bound. -/
theorem place_midpoint_of_unbounded {l u : Int} (hl : a.lb.place = some l) (hu : a.ub.place = some u)
    (unbounded : a.isUnbounded = true) :
    a.midpoint.place = some (if l.natAbs = f.infinityCode then
        if u.natAbs = f.infinityCode then 0 else -((f.infinityCode - 1 : Nat) : Int)
      else ((f.infinityCode - 1 : Nat) : Int)) := by
  simp only [← Binary.isInfinite_iff hl, ← Binary.isInfinite_iff hu]
  rw [isUnbounded] at unbounded
  unfold midpoint
  cases lowerInfinite : a.lb.isInfinite <;> cases upperInfinite : a.ub.isInfinite
  · rw [lowerInfinite, upperInfinite] at unbounded
    cases unbounded
  · rfl
  · rfl
  · rfl

/-- The midpoint of an interval lies in it unless the bounds are equal and infinite, or equal and an odd
number of units. -/
theorem contains_midpoint_iff (ha : a.Valid) :
    a.contains a.midpoint = true ↔
      (a.isDegenerate = true → a.isUnbounded = false ∧ a.lb.exactUnits % 2 = 0) := by
  cases bounded : a.isUnbounded
  · rw [ha.contains_midpoint_iff_of_bounded bounded]
    exact ⟨fun h degenerate => ⟨rfl, h degenerate⟩, fun h degenerate => (h degenerate).2⟩
  · obtain ⟨l, u, hl, hu, hlu⟩ := Binary.le_iff.1 ha
    have htop := f.two_le_code
    have hlowest := Binary.natAbs_place_le hl
    have hhighest := Binary.natAbs_place_le hu
    have hmid := place_midpoint_of_unbounded hl hu bounded
    have hinfinite : l.natAbs = f.infinityCode ∨ u.natAbs = f.infinityCode := by
      refine Decidable.byContradiction fun h => ?_
      rw [not_or, ← isUnbounded_eq_false_iff hl hu, bounded] at h
      cases h
    rw [contains_iff, Binary.le_iff_of_place hl hmid, Binary.le_iff_of_place hmid hu, isDegenerate,
      Binary.equals_iff_of_place hl hu]
    simp only [Bool.true_eq_false, false_and, imp_false]
    split
    · split <;> omega
    · omega

/-- From one to infinity the midpoint is the largest finite number, and the interval of two units alone
has its number back. -/
theorem contains_midpoint_one_infinity :
    let two : Binary .binary64 := .number false 2 (by decide)
    let a : Interval .binary64 := ⟨.one, .infinity⟩
    let b : Interval .binary64 := ⟨two, two⟩
    a.Valid ∧ a.isDegenerate = false ∧ a.midpoint = .greatest ∧ a.contains a.midpoint = true ∧
      b.Valid ∧ b.isDegenerate = true ∧ b.midpoint = two ∧ b.contains b.midpoint = true := by
  intro two a b
  have ha : a.Valid := by decide +kernel
  have hb : b.Valid := by decide +kernel
  have distinct : a.isDegenerate = false := by decide +kernel
  refine ⟨ha, distinct, by decide +kernel, (contains_midpoint_iff ha).2 fun h => ?_,
    hb, by decide +kernel, by decide +kernel, (contains_midpoint_iff hb).2 fun _ => ?_⟩
  · rw [distinct] at h
    cases h
  · exact ⟨by decide +kernel, by decide +kernel⟩

/-- The interval of the smallest positive number alone, and that of infinity alone, are without their
midpoints. -/
theorem midpoint_outside :
    let tiny : Binary .binary64 := .number false 1 (by decide)
    let a : Interval .binary64 := ⟨tiny, tiny⟩
    let b : Interval .binary64 := ⟨.infinity, .infinity⟩
    a.Valid ∧ a.contains a.midpoint = false ∧ b.Valid ∧ b.contains b.midpoint = false := by
  decide +kernel

end Interval

end BranchBound
