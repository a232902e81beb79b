/-
Diameters. The diameter of an interval with its bounds in order is a number from zero on
(`Valid.exists_diameter`); it is zero exactly if the bounds are equal and finite
(`isZero_diameter_iff`), since the difference of different numbers is at least one unit; and an interval
around another one has the larger diameter (`diameter_mono`).
-/
import BranchBound.Proofs.Binary.Monotone
import BranchBound.Proofs.Interval.Containment

namespace BranchBound

namespace Format

variable (f : Format)

theorem signedCode_zero (den : Nat) : f.signedCode 0 den = 0 := by
  simp [signedCode, f.nearestCode_zero]

theorem signedCode_nonneg {num : Int} (h : 0 ≤ num) (den : Nat) : 0 ≤ f.signedCode num den := by
  unfold signedCode
  rw [if_neg (Int.not_lt.2 h)]
  exact Int.natCast_nonneg _

/-- Up to two full significands a number of units is its own place. -/
theorem signedCode_eq_self {num : Int} (h : num.natAbs ≤ 2 * 2 ^ f.fractionBits) :
    f.signedCode num 1 = num := by
  have htop := f.two_le_code
  have hunits : f.units num.natAbs = num.natAbs := by
    rcases Nat.lt_or_eq_of_le h with h | h
    · exact f.units_of_lt (by rwa [f.pow_succ_fractionBits])
    · have := f.units_scaled 1 (2 ^ f.fractionBits) (Nat.le_refl _)
        (by rw [f.pow_succ_fractionBits]; have := Nat.two_pow_pos f.fractionBits; omega)
      rw [h, Nat.two_mul]
      rwa [Nat.one_mul, Nat.pow_one, Nat.mul_comm, Nat.two_mul] at this
  have hcode := f.nearestCode_units (show num.natAbs ≤ f.infinityCode by omega)
  rw [hunits] at hcode
  unfold signedCode
  rw [hcode]
  split <;> omega

/-- At least one unit does not round to zero. -/
theorem signedCode_pos {num : Int} (h : 0 < num) : 0 < f.signedCode num 1 := by
  have hp := Nat.two_pow_pos f.fractionBits
  have hone : f.signedCode 1 1 = 1 := f.signedCode_eq_self (by simp only [Int.natAbs_one]; omega)
  have hle : 1 * ((1 : Nat) : Int) ≤ num * (1 : Nat) := by omega
  have := f.signedCode_mono (by decide) (by decide) hle
  omega

end Format

/-- A sum of exactly zero is negative only if both terms are. -/
theorem Binary.number_add_number {f : Format} {n m : Bool} {c d : Nat} (hc : c ≤ f.infinityCode)
    (hd : d ≤ f.infinityCode) (hc' : c ≠ f.infinityCode) (hd' : d ≠ f.infinityCode)
    (h : f.signedUnits n c + f.signedUnits m d = 0) :
    number n c hc + number m d hd = signedZero (n && m) := by
  show Binary.add (number n c hc) (number m d hd) = _
  simp only [Binary.add, if_neg hc', if_neg hd', if_pos h]

namespace Interval

variable {f : Format} {a b : Interval f}

theorem isUnbounded_eq_false_iff {l u : Int} (hl : a.lb.place = some l) (hu : a.ub.place = some u) :
    a.isUnbounded = false ↔ l.natAbs ≠ f.infinityCode ∧ u.natAbs ≠ f.infinityCode := by
  rw [isUnbounded, Bool.or_eq_false_iff, ← Bool.not_eq_true, ← Bool.not_eq_true,
    Binary.isInfinite_iff hl, Binary.isInfinite_iff hu]

theorem Valid.isFinite (ha : a.Valid) (bounded : a.isUnbounded = false) :
    a.lb.isFinite = true ∧ a.ub.isFinite = true := by
  obtain ⟨hlb, hub⟩ := Binary.isNaN_of_le ha
  obtain ⟨lower, upper⟩ := Bool.or_eq_false_iff.1 bounded
  exact ⟨Binary.isFinite_eq_true_iff.2 ⟨hlb, lower⟩, Binary.isFinite_eq_true_iff.2 ⟨hub, upper⟩⟩

theorem Valid.exactUnits_le (ha : a.Valid) : a.lb.exactUnits ≤ a.ub.exactUnits := by
  obtain ⟨l, u, hl, hu, hle⟩ := Binary.le_iff.1 ha
  exact (Binary.exactUnits_le_iff hl hu).2 hle

theorem diameter_of_unbounded (unbounded : a.isUnbounded = true) : a.diameter = .infinity :=
  if_pos unbounded

/-- The diameter of a bounded interval is in the place nearest to the difference of the bounds. -/
theorem Valid.place_diameter (ha : a.Valid) (bounded : a.isUnbounded = false) :
    a.diameter.place = some (f.signedCode (a.ub.exactUnits - a.lb.exactUnits) 1) := by
  obtain ⟨lower, upper⟩ := ha.isFinite bounded
  rw [diameter, if_neg (Bool.not_eq_true _ ▸ bounded)]
  rw [Int.sub_eq_add_neg, ← Binary.exactUnits_neg]
  exact Binary.place_add upper ((Binary.isFinite_neg a.lb).trans lower)

theorem Valid.exists_diameter (ha : a.Valid) : ∃ d : Int, a.diameter.place = some d ∧ 0 ≤ d := by
  cases bounded : a.isUnbounded
  · have := ha.exactUnits_le
    exact ⟨_, ha.place_diameter bounded, f.signedCode_nonneg (by omega) 1⟩
  · exact ⟨f.infinityCode, diameter_of_unbounded bounded ▸ Binary.place_infinity, by omega⟩

theorem isDegenerate_iff (ha : a.Valid) :
    a.isDegenerate = true ↔ a.lb.exactUnits = a.ub.exactUnits := by
  obtain ⟨l, u, hl, hu, -⟩ := Binary.le_iff.1 ha
  have hlu := Binary.exactUnits_le_iff hl hu
  have hul := Binary.exactUnits_le_iff hu hl
  rw [isDegenerate, Binary.equals_iff_of_place hl hu]
  omega

/-- The diameter is zero exactly if the bounds are the same finite number. -/
theorem isZero_diameter_iff (ha : a.Valid) :
    a.diameter.isZero = true ↔ a.isDegenerate = true ∧ a.isUnbounded = false := by
  cases bounded : a.isUnbounded
  · rw [Binary.isZero_iff (ha.place_diameter bounded), isDegenerate_iff ha]
    have := ha.exactUnits_le
    rcases Int.lt_or_eq_of_le this with hlt | heq
    · have := f.signedCode_pos (show 0 < a.ub.exactUnits - a.lb.exactUnits by omega)
      omega
    · rw [heq, Int.sub_self, f.signedCode_zero]
      exact iff_of_true rfl ⟨rfl, rfl⟩
  · rw [diameter_of_unbounded bounded, Binary.isZero_iff Binary.place_infinity]
    have := f.two_le_code
    exact iff_of_false (by omega) nofun

/-- The diameter has a sign only from the positive zero up to the negative one. -/
theorem diameter_eq_negativeZero_iff (ha : a.Valid) :
    a.diameter = .signedZero true ↔ a = ⟨.zero, .signedZero true⟩ := by
  have htop := f.two_le_code
  constructor
  · intro h
    obtain ⟨degenerate, bounded⟩ := (isZero_diameter_iff ha).1 (by rw [h]; rfl)
    obtain ⟨lower, upper⟩ := ha.isFinite bounded
    have hunits := (isDegenerate_iff ha).1 degenerate
    rw [diameter, if_neg (Bool.not_eq_true _ ▸ bounded)] at h
    obtain ⟨lb, ub⟩ := a
    cases lb with
    | nan => cases lower
    | number n c hc =>
      cases ub with
      | nan => cases upper
      | number m d hd =>
        simp only [Binary.isFinite, bne_iff_ne] at lower upper
        change f.signedUnits n c = f.signedUnits m d at hunits
        have htotal : f.signedUnits m d + f.signedUnits (!n) c = 0 := by
          rw [← hunits]
          cases n
          · exact Int.add_right_neg _
          · exact Int.add_left_neg _
        -- exactly zero, and negative only as the negative zero less the positive one
        change Binary.number m d hd + .number (!n) c hc = _ at h
        rw [Binary.number_add_number hd hc upper lower htotal] at h
        obtain ⟨rfl, rfl⟩ : m = true ∧ n = false := by simpa [Binary.signedZero] using h
        have hc0 := f.units_eq_zero_iff hc
        have hd0 := f.units_eq_zero_iff hd
        simp only [Format.signedUnits, Bool.not_false, if_true] at htotal
        obtain rfl : c = 0 := by omega
        obtain rfl : d = 0 := by omega
        rfl
  · rintro rfl
    have hzero : (0 : Nat) ≠ f.infinityCode := by omega
    have hbounded : (⟨.zero, .signedZero true⟩ : Interval f).isUnbounded = false := by
      simp [isUnbounded, Binary.zero, Binary.signedZero, Binary.isInfinite, hzero]
    rw [diameter, if_neg (Bool.not_eq_true _ ▸ hbounded)]
    exact Binary.number_add_number (Nat.zero_le _) (Nat.zero_le _) hzero hzero
      (by simp [Format.signedUnits, f.units_zero])

/-- An interval around another one has the larger diameter. -/
theorem diameter_mono (ha : a.Valid) (h : b.containsInterval a = true) : a.diameter ≤ b.diameter := by
  have hb := valid_of_containsInterval ha h
  obtain ⟨hlb, hub⟩ := containsInterval_iff.1 h
  cases around : b.isUnbounded
  · obtain ⟨l', l, hl', hl, hll⟩ := Binary.le_iff.1 hlb
    obtain ⟨u, u', hu, hu', huu⟩ := Binary.le_iff.1 hub
    -- bounds between finite ones are finite
    have bounded : a.isUnbounded = false := by
      have hlu := (Binary.le_iff_of_place hl hu).1 ha
      have := Binary.natAbs_place_le hl'
      have := Binary.natAbs_place_le hu'
      rw [isUnbounded_eq_false_iff hl' hu'] at around
      rw [isUnbounded_eq_false_iff hl hu]
      omega
    have := (Binary.exactUnits_le_iff hl' hl).2 hll
    have := (Binary.exactUnits_le_iff hu hu').2 huu
    rw [Binary.le_iff_of_place (ha.place_diameter bounded) (hb.place_diameter around)]
    exact f.signedCode_mono (by decide) (by decide) (by omega)
  · obtain ⟨d, hd, -⟩ := ha.exists_diameter
    rw [diameter_of_unbounded around]
    exact Binary.le_infinity (Binary.isNaN_of_place hd)

end Interval

end BranchBound
