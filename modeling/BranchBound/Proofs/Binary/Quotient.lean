/-
Differences and quotients. From any number a finite one can be taken (`isNaN_sub`), and the difference grows
with the number (`sub_le_sub_right`). By a finite number above zero every number can be divided, and the
quotient grows with it (`div_le_div`), since it is in the place nearest to the quotient of the units
(`place_div`). By zero every other number is infinite, of one sign for the one zero and of the other sign for
the other (`div_signedZero`).
-/
import BranchBound.Proofs.Binary.Monotone

namespace BranchBound

theorem Format.signedCode_signed (f : Format) (negative : Bool) (num den : Nat) :
    f.signedCode (if negative then -(num : Int) else num) den =
      if negative then -(f.nearestCode num den : Int) else f.nearestCode num den := by
  cases negative
  · simp only [signedCode, Bool.false_eq_true, if_false, Int.natAbs_natCast]
    rw [if_neg (by omega)]
  · by_cases hzero : num = 0
    · simp [signedCode, hzero, f.nearestCode_zero]
    · simp only [signedCode, if_true, Int.natAbs_neg, Int.natAbs_natCast]
      rw [if_pos (by omega)]

namespace Binary

variable {f : Format} {a a' b : Binary f} {x : Int}

/-! ## Differences -/

theorem isNaN_sub (ha : a.isNaN = false) (hb : b.isFinite = true) : (a - b).isNaN = false := by
  obtain ⟨hnumber, hfinite⟩ := isFinite_eq_true_iff.1 ((isFinite_neg b).trans hb)
  cases hnan : (a - b).isNaN with
  | false => rfl
  | true =>
    rcases infinite_of_isNaN_add ha hnumber hnan with ⟨-, h⟩ | ⟨-, h⟩ <;>
      simp [h, infinity, negInfinity, signedInfinity, isInfinite] at hfinite

theorem sub_le_sub_right (h : a ≤ a') (hb : b.isFinite = true) : a - b ≤ a' - b := by
  obtain ⟨ha, ha'⟩ := isNaN_of_le h
  obtain ⟨hnumber, -⟩ := isFinite_eq_true_iff.1 ((isFinite_neg b).trans hb)
  exact add_le_add h (le_refl hnumber) (isNaN_sub ha hb) (isNaN_sub ha' hb)

/-- Infinities are not moved by finite numbers. -/
theorem infinity_sub (hb : b.isFinite = true) :
    infinity - b = infinity ∧ negInfinity - b = negInfinity :=
  ⟨infinity_add (isNaN_sub rfl hb), negInfinity_add (isNaN_sub rfl hb)⟩

/-! ## Quotients by numbers above zero -/

/-- A finite number above zero by its code. -/
theorem exists_code_of_pos (pos : zero < b) (hb : b.isFinite = true) :
    ∃ code bounded, b = number false code bounded ∧ code ≠ 0 ∧ code ≠ f.infinityCode := by
  obtain ⟨x, y, hx, hy, hlt⟩ := lt_iff.1 pos
  cases hx
  cases b with
  | nan => cases hy
  | number m d hd =>
    cases hy
    cases m
    · exact ⟨d, hd, rfl, by simp at hlt; omega, by simpa [isFinite] using hb⟩
    · simp at hlt
      omega

theorem place_div (ha : a.isFinite = true) (pos : zero < b) (hb : b.isFinite = true) :
    (a / b).place = some (f.signedCode (a.exactUnits * 2 ^ f.unitScale) b.exactUnits.toNat) := by
  obtain ⟨d, hd, rfl, hzero, hinfinity⟩ := exists_code_of_pos pos hb
  cases a with
  | nan => cases ha
  | number n c hc =>
    have hc' : c ≠ f.infinityCode := by simpa [isFinite] using ha
    have hnum : (number n c hc).exactUnits * 2 ^ f.unitScale =
        if n then -((f.units c * 2 ^ f.unitScale : Nat) : Int) else (f.units c * 2 ^ f.unitScale : Nat) := by
      cases n
      · simp [exactUnits, Format.signedUnits]
      · exact Int.neg_mul ..
    have hden : (number false d hd).exactUnits.toNat = f.units d := by
      simp [exactUnits, Format.signedUnits]
    rw [hnum, hden, f.signedCode_signed]
    show (Binary.div (number n c hc) (number false d hd)).place = _
    simp [Binary.div, hc', hzero, hinfinity, ofUnits, place]

theorem signedInfinity_div (negative : Bool) (pos : zero < b) (hb : b.isFinite = true) :
    signedInfinity negative / b = signedInfinity negative := by
  obtain ⟨d, hd, rfl, hzero, hinfinity⟩ := exists_code_of_pos pos hb
  show Binary.div (signedInfinity negative) (number false d hd) = _
  simp [Binary.div, signedInfinity, hinfinity]

theorem isNaN_div (ha : a.isNaN = false) (pos : zero < b) (hb : b.isFinite = true) :
    (a / b).isNaN = false := by
  rcases infinity_or_finite ha with rfl | rfl | finite
  · exact congrArg isNaN (signedInfinity_div true pos hb)
  · exact congrArg isNaN (signedInfinity_div false pos hb)
  · exact isNaN_of_place (place_div finite pos hb)

theorem div_le_div (h : a ≤ a') (pos : zero < b) (hb : b.isFinite = true) : a / b ≤ a' / b := by
  obtain ⟨ha, ha'⟩ := isNaN_of_le h
  rcases infinity_or_finite ha with rfl | rfl | finite
  · rw [show negInfinity / b = negInfinity from signedInfinity_div true pos hb]
    exact negInfinity_le (isNaN_div ha' pos hb)
  · rw [eq_infinity_of_le h]
    exact le_refl (isNaN_div ha pos hb)
  rcases infinity_or_finite ha' with rfl | rfl | finite'
  · rw [eq_negInfinity_of_le h]
    exact le_refl (isNaN_div ha' pos hb)
  · rw [show infinity / b = infinity from signedInfinity_div false pos hb]
    exact le_infinity (isNaN_div ha pos hb)
  obtain ⟨x, y, hx, hy, hle⟩ := le_iff.1 h
  have hunits := (exactUnits_le_iff hx hy).2 hle
  obtain ⟨d, hd, rfl, hzero, -⟩ := exists_code_of_pos pos hb
  have hpos : 0 < (number false d hd).exactUnits.toNat := by
    have := f.units_eq_zero_iff hd
    simp only [exactUnits, Format.signedUnits, Bool.false_eq_true, if_false, Int.toNat_natCast]
    omega
  rw [le_iff_of_place (place_div finite pos hb) (place_div finite' pos hb)]
  refine f.signedCode_mono hpos hpos (Int.mul_le_mul_of_nonneg_right ?_ (Int.natCast_nonneg _))
  exact Int.mul_le_mul_of_nonneg_right hunits (Int.le_of_lt (Int.pow_pos (by decide)))

/-! ## Quotients by zero and infinity -/

theorem isZero_eq_true_iff : a.isZero = true ↔ ∃ negative, a = signedZero negative := by
  cases a <;> simp [isZero, signedZero]

/-- By the one zero a number turns to the infinity on its side, by the other one to that on the other. -/
theorem div_signedZero (ha : a.place = some x) (negative : Bool) :
    a / signedZero negative = if x = 0 then nan else signedInfinity (decide (x < 0) != negative) := by
  cases a with
  | nan => cases ha
  | number n c hc =>
    cases ha
    have htop := f.two_le_code
    show Binary.div (number n c hc) (number negative 0 _) = _
    by_cases hzero : c = 0
    · subst hzero
      have : (0 : Nat) ≠ f.infinityCode := by omega
      simp [Binary.div, this]
    · have hsign : decide ((if n then -(c : Int) else c) < 0) = n := by
        cases n
        · simp only [Bool.false_eq_true, if_false, decide_eq_false_iff_not]
          omega
        · simp only [if_true, decide_eq_true_eq]
          omega
      have hplace : (if n then -(c : Int) else c) ≠ 0 := by split <;> omega
      have : (0 : Nat) ≠ f.infinityCode := by omega
      rw [if_neg hplace, hsign]
      by_cases hinfinity : c = f.infinityCode
      · subst hinfinity
        simp [Binary.div, this]
      · simp [Binary.div, hinfinity, this, hzero]

theorem isZero_div (ha : a.isZero = true) (pos : zero < b) (hb : b.isFinite = true) :
    (a / b).isZero = true := by
  have htop := f.two_le_code
  obtain ⟨negative, rfl⟩ := isZero_eq_true_iff.1 ha
  obtain ⟨d, hd, rfl, hzero, hinfinity⟩ := exists_code_of_pos pos hb
  have : (0 : Nat) ≠ f.infinityCode := by omega
  show (Binary.div (number negative 0 _) (number false d hd)).isZero = true
  simp [Binary.div, this, hinfinity, hzero, ofUnits, isZero, f.units_zero, f.nearestCode_zero]

theorem isZero_div_infinity (ha : a.isFinite = true) : (a / infinity).isZero = true := by
  cases a with
  | nan => cases ha
  | number n c hc =>
    have hc' : c ≠ f.infinityCode := by simpa [isFinite] using ha
    show (Binary.div (number n c hc) (signedInfinity false)).isZero = true
    simp [Binary.div, signedInfinity, hc', signedZero, isZero]

end Binary

end BranchBound
