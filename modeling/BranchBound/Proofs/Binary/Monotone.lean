/-
Arithmetic keeps the order of numbers. A finite number is a whole number of units (`exactUnits`), and
an operation rounds the exact result to the place nearest to it (`signedCode`), which keeps order
(`signedCode_mono`). Main statements: a sum grows with both terms (`add_le_add`), and a product of numbers
from zero on with both factors (`mul_le_mul`), where they are numbers; and the place of a product
is the product of the places' signs and magnitudes (`placeProduct`), which grows or falls with a factor by
the sign of the other one (`placeProduct_le_of_nonneg`, `placeProduct_le_of_nonpos`).
-/
import BranchBound.Proofs.Binary.Order
import BranchBound.Binary.Midpoints

namespace BranchBound

namespace Format

variable (f : Format)

theorem units_zero : f.units 0 = 0 := f.units_of_lt (Nat.two_pow_pos _)

theorem units_eq_zero_iff {code : Nat} (h : code ≤ f.infinityCode) : f.units code = 0 ↔ code = 0 := by
  have := f.units_le_units_iff h (Nat.zero_le _)
  rw [units_zero] at this
  omega

theorem nearestCode_zero (den : Nat) : f.nearestCode 0 den = 0 := by
  simp [nearestCode, nearestEven]

/-! ## Rounding with a sign -/

/-- The place of the number nearest to `num / den` units. -/
def signedCode (num : Int) (den : Nat) : Int :=
  if num < 0 then -(f.nearestCode num.natAbs den : Int) else f.nearestCode num.natAbs den

/-- A larger quotient does not round to a smaller place. -/
theorem signedCode_mono {n₁ n₂ : Int} {d₁ d₂ : Nat} (h₁ : 0 < d₁) (h₂ : 0 < d₂)
    (h : n₁ * d₂ ≤ n₂ * d₁) : f.signedCode n₁ d₁ ≤ f.signedCode n₂ d₂ := by
  have hd₁ : (0 : Int) < d₁ := by omega
  have hd₂ : (0 : Int) < d₂ := by omega
  unfold signedCode
  by_cases neg₁ : n₁ < 0 <;> by_cases neg₂ : n₂ < 0
  · obtain ⟨m₁, rfl⟩ : ∃ m : Nat, n₁ = -m := ⟨n₁.natAbs, by omega⟩
    obtain ⟨m₂, rfl⟩ : ∃ m : Nat, n₂ = -m := ⟨n₂.natAbs, by omega⟩
    rw [Int.neg_mul, Int.neg_mul, Int.neg_le_neg_iff] at h
    have := f.nearestCode_mono h₂ h₁ (by exact_mod_cast h)
    simp only [neg₁, neg₂, Int.natAbs_neg, Int.natAbs_natCast, if_true]
    omega
  · rw [if_pos neg₁, if_neg neg₂]
    omega
  · -- a quotient from zero on is not below one below zero
    have := Int.mul_neg_of_neg_of_pos (Int.not_le.1 (by omega : ¬ 0 ≤ n₂)) hd₁
    have := Int.mul_nonneg (Int.not_lt.1 neg₁) (Int.le_of_lt hd₂)
    omega
  · obtain ⟨m₁, rfl⟩ := Int.eq_ofNat_of_zero_le (Int.not_lt.1 neg₁)
    obtain ⟨m₂, rfl⟩ := Int.eq_ofNat_of_zero_le (Int.not_lt.1 neg₂)
    have := f.nearestCode_mono h₁ h₂ (by exact_mod_cast h)
    simp only [neg₁, neg₂, Int.natAbs_natCast, if_false]
    omega

/-! ## Products of codes -/

/-- The magnitude of a product of two magnitudes, where zero times anything is zero. -/
def codeProduct (c d : Nat) : Nat :=
  if c = 0 ∨ d = 0 then 0
  else if c = f.infinityCode ∨ d = f.infinityCode then f.infinityCode
  else f.nearestCode (f.units c * f.units d) (2 ^ f.unitScale)

theorem codeProduct_comm (c d : Nat) : f.codeProduct c d = f.codeProduct d c := by
  simp only [codeProduct, Nat.mul_comm (f.units c), or_comm (a := c = _)]

theorem codeProduct_le_infinityCode (c d : Nat) : f.codeProduct c d ≤ f.infinityCode := by
  unfold codeProduct
  split
  · exact Nat.zero_le _
  · split
    · exact Nat.le_refl _
    · exact f.nearestCode_le ..

/-- A product grows with its first factor. -/
theorem codeProduct_mono {c c' : Nat} (d : Nat) (h : c ≤ c') (hc : c' ≤ f.infinityCode) :
    f.codeProduct c d ≤ f.codeProduct c' d := by
  by_cases zero : c = 0 ∨ d = 0
  · rw [codeProduct, if_pos zero]
    exact Nat.zero_le _
  by_cases infinite : c' = f.infinityCode ∨ d = f.infinityCode
  · have : f.codeProduct c' d = f.infinityCode := by
      rw [codeProduct, if_neg (by omega), if_pos infinite]
    rw [this]
    exact f.codeProduct_le_infinityCode c d
  · rw [codeProduct, if_neg zero, if_neg (by omega), codeProduct, if_neg (by omega), if_neg infinite]
    refine f.nearestCode_mono (Nat.two_pow_pos _) (Nat.two_pow_pos _) ?_
    exact Nat.mul_le_mul_right _
      (Nat.mul_le_mul_right _ ((f.units_le_units_iff (by omega) hc).2 h))

/-- The place of a product of two numbers at these places. -/
def placeProduct (x y : Int) : Int := x.sign * y.sign * f.codeProduct x.natAbs y.natAbs

theorem placeProduct_comm (x y : Int) : f.placeProduct x y = f.placeProduct y x := by
  rw [placeProduct, placeProduct, codeProduct_comm, Int.mul_comm x.sign]

theorem placeProduct_neg (x y : Int) : f.placeProduct x (-y) = -f.placeProduct x y := by
  rw [placeProduct, placeProduct, Int.sign_neg, Int.natAbs_neg, Int.mul_neg, Int.neg_mul]

theorem placeProduct_zero (x : Int) : f.placeProduct x 0 = 0 := by simp [placeProduct]

theorem placeProduct_nonneg {x y : Int} (hx : 0 ≤ x) (hy : 0 ≤ y) : 0 ≤ f.placeProduct x y :=
  Int.mul_nonneg (Int.mul_nonneg (Int.sign_nonneg_iff.2 hx) (Int.sign_nonneg_iff.2 hy))
    (Int.natCast_nonneg _)

/-- Times a place from zero on, places keep their order. -/
theorem placeProduct_le_of_nonneg {x x' y : Int} (h : x ≤ x') (hy : 0 ≤ y)
    (hx : x.natAbs ≤ f.infinityCode) (hx' : x'.natAbs ≤ f.infinityCode) :
    f.placeProduct x y ≤ f.placeProduct x' y := by
  rcases Int.lt_or_eq_of_le hy with hpos | rfl
  · have value (z : Int) : f.placeProduct z y = z.sign * f.codeProduct z.natAbs y.natAbs := by
      rw [placeProduct, Int.sign_eq_one_of_pos hpos, Int.mul_one]
    rw [value, value]
    rcases Int.lt_trichotomy x 0 with hneg | rfl | hpos
    · rw [Int.sign_eq_neg_one_of_neg hneg]
      rcases Int.lt_trichotomy x' 0 with hneg' | rfl | hpos'
      · rw [Int.sign_eq_neg_one_of_neg hneg']
        have := f.codeProduct_mono y.natAbs (by omega : x'.natAbs ≤ x.natAbs) hx
        omega
      · simp
      · rw [Int.sign_eq_one_of_pos hpos']
        omega
    · rw [Int.sign_zero, Int.zero_mul]
      exact Int.mul_nonneg (Int.sign_nonneg_iff.2 h) (Int.natCast_nonneg _)
    · rw [Int.sign_eq_one_of_pos hpos, Int.sign_eq_one_of_pos (by omega : 0 < x')]
      have := f.codeProduct_mono y.natAbs (by omega : x.natAbs ≤ x'.natAbs) hx'
      omega
  · exact Int.le_of_eq ((f.placeProduct_zero x).trans (f.placeProduct_zero x').symm)

/-- Times a place up to zero, places turn their order. -/
theorem placeProduct_le_of_nonpos {x x' y : Int} (h : x ≤ x') (hy : y ≤ 0)
    (hx : x.natAbs ≤ f.infinityCode) (hx' : x'.natAbs ≤ f.infinityCode) :
    f.placeProduct x' y ≤ f.placeProduct x y := by
  have := f.placeProduct_le_of_nonneg h (Int.neg_nonneg.2 hy) hx hx'
  rw [placeProduct_neg, placeProduct_neg] at this
  omega

/-- With its first factor between two places a product is between the two products. -/
theorem placeProduct_between {x l u : Int} (y : Int) (hl : l ≤ x) (hu : x ≤ u)
    (hl' : l.natAbs ≤ f.infinityCode) (hu' : u.natAbs ≤ f.infinityCode) :
    min (f.placeProduct l y) (f.placeProduct u y) ≤ f.placeProduct x y ∧
      f.placeProduct x y ≤ max (f.placeProduct l y) (f.placeProduct u y) := by
  have hx : x.natAbs ≤ f.infinityCode := by omega
  rcases Int.le_total 0 y with hy | hy
  · have := f.placeProduct_le_of_nonneg hl hy hl' hx
    have := f.placeProduct_le_of_nonneg hu hy hx hu'
    omega
  · have := f.placeProduct_le_of_nonpos hl hy hl' hx
    have := f.placeProduct_le_of_nonpos hu hy hx hu'
    omega

end Format

namespace Binary

variable {f : Format} {a a' b b' : Binary f} {x y : Int}

/-! ## Units of numbers -/

/-- The units of a number, below zero if it is negative; for infinity, those of its code. -/
def exactUnits : Binary f → Int
  | nan => 0
  | number negative code _ => f.signedUnits negative code

/-- Numbers are in the order of their units. -/
theorem exactUnits_le_iff (ha : a.place = some x) (hb : b.place = some y) :
    a.exactUnits ≤ b.exactUnits ↔ x ≤ y := by
  cases a with
  | nan => cases ha
  | number n c hc =>
    cases b with
    | nan => cases hb
    | number m d hd =>
      cases ha
      cases hb
      have hcd := f.units_le_units_iff hc hd
      have hdc := f.units_le_units_iff hd hc
      have hc0 := f.units_eq_zero_iff hc
      have hd0 := f.units_eq_zero_iff hd
      cases n <;> cases m <;> simp only [exactUnits, Format.signedUnits, if_true, if_false,
        Bool.false_eq_true] <;> omega

/-- A number is in the place nearest to its units. -/
theorem signedCode_exactUnits (ha : a.place = some x) : f.signedCode a.exactUnits 1 = x := by
  cases a with
  | nan => cases ha
  | number n c hc =>
    cases ha
    have hself := f.nearestCode_units hc
    have hc0 := f.units_eq_zero_iff hc
    unfold Format.signedCode exactUnits Format.signedUnits
    cases n
    · simp only [Bool.false_eq_true, if_false, Int.natAbs_natCast, hself]
      split <;> omega
    · simp only [if_true, Int.natAbs_neg, Int.natAbs_natCast, hself]
      split <;> omega

theorem exactUnits_neg (a : Binary f) : (-a).exactUnits = -a.exactUnits := by
  cases a with
  | nan => rfl
  | number negative code bounded =>
    show f.signedUnits (!negative) code = -f.signedUnits negative code
    cases negative <;> simp [Format.signedUnits]

theorem isFinite_neg (a : Binary f) : (-a).isFinite = a.isFinite := by
  cases a <;> rfl

theorem isFinite_eq_true_iff : a.isFinite = true ↔ a.isNaN = false ∧ a.isInfinite = false := by
  cases a <;> simp [isFinite, isNaN, isInfinite]

theorem place_ofUnits (num : Int) (den : Nat) :
    (ofUnits (decide (num < 0)) num.natAbs den : Binary f).place = some (f.signedCode num den) := by
  unfold ofUnits place Format.signedCode
  by_cases h : num < 0 <;> simp [h]

/-! ## Sums -/

/-- The sum of finite numbers is in the place nearest to the sum of their units. -/
theorem place_add (ha : a.isFinite = true) (hb : b.isFinite = true) :
    (a + b).place = some (f.signedCode (a.exactUnits + b.exactUnits) 1) := by
  cases a with
  | nan => cases ha
  | number n c hc =>
    cases b with
    | nan => cases hb
    | number m d hd =>
      have hc' : c ≠ f.infinityCode := by simpa [isFinite] using ha
      have hd' : d ≠ f.infinityCode := by simpa [isFinite] using hb
      show (Binary.add (number n c hc) (number m d hd)).place = _
      simp only [Binary.add, if_neg hc', if_neg hd']
      split
      · rename_i hzero
        show some _ = some _
        simp only [exactUnits, hzero, Format.signedCode, Int.natAbs_zero, f.nearestCode_zero]
        cases n && m <;> rfl
      · exact place_ofUnits ..

theorem add_comm (a b : Binary f) : a + b = b + a := by
  show Binary.add a b = Binary.add b a
  cases a with
  | nan => cases b <;> rfl
  | number n c hc =>
    cases b with
    | nan => rfl
    | number m d hd =>
      simp only [Binary.add, Int.add_comm (f.signedUnits n c), Bool.and_comm n]
      by_cases h : c = f.infinityCode <;> by_cases h' : d = f.infinityCode
      · cases n <;> cases m <;> simp [h, h']
      · simp [h, h']
      · simp [h, h']
      · simp [h, h']

/-- Minus infinity and any number that is not infinity. -/
theorem negInfinity_add (h : (negInfinity + b).isNaN = false) : negInfinity + b = negInfinity := by
  cases b with
  | nan => cases h
  | number m d hd =>
    change (Binary.add negInfinity (number m d hd)).isNaN = false at h
    show Binary.add negInfinity (number m d hd) = _
    simp only [Binary.add, negInfinity, signedInfinity, if_true] at h ⊢
    split at h
    · cases h
    · rename_i opposite
      rw [if_neg opposite]

/-- Infinity and any number that is not minus infinity. -/
theorem infinity_add (h : (infinity + b).isNaN = false) : infinity + b = infinity := by
  cases b with
  | nan => cases h
  | number m d hd =>
    change (Binary.add infinity (number m d hd)).isNaN = false at h
    show Binary.add infinity (number m d hd) = _
    simp only [Binary.add, infinity, signedInfinity, if_true] at h ⊢
    split at h
    · cases h
    · rename_i opposite
      rw [if_neg opposite]

/-- Only opposite infinities have no sum. -/
theorem infinite_of_isNaN_add (ha : a.isNaN = false) (hb : b.isNaN = false)
    (h : (a + b).isNaN = true) :
    (a = infinity ∧ b = negInfinity) ∨ (a = negInfinity ∧ b = infinity) := by
  cases a with
  | nan => cases ha
  | number n c hc =>
    cases b with
    | nan => cases hb
    | number m d hd =>
      change (Binary.add (number n c hc) (number m d hd)).isNaN = true at h
      simp only [Binary.add] at h
      split at h
      · split at h
        · rename_i hc' hd'
          obtain ⟨rfl, hsigns⟩ := hd'
          subst hc'
          cases n <;> cases m
          · exact absurd rfl hsigns
          · exact .inl ⟨rfl, rfl⟩
          · exact .inr ⟨rfl, rfl⟩
          · exact absurd rfl hsigns
        · cases h
      · split at h
        · cases h
        · split at h <;> cases h

/-- A sum that is a number grows with both of its terms. -/
theorem add_le_add (h : a ≤ a') (h' : b ≤ b') (number : (a + b).isNaN = false)
    (number' : (a' + b').isNaN = false) : a + b ≤ a' + b' := by
  obtain ⟨ha, ha'⟩ := isNaN_of_le h
  obtain ⟨hb, hb'⟩ := isNaN_of_le h'
  -- an infinite term below or above decides
  by_cases lower : a = negInfinity
  · subst lower
    rw [negInfinity_add number]
    exact negInfinity_le number'
  by_cases lower' : b = negInfinity
  · subst lower'
    rw [add_comm, negInfinity_add (by rwa [add_comm])]
    exact negInfinity_le number'
  by_cases upper : a' = infinity
  · subst upper
    rw [infinity_add number']
    exact le_infinity number
  by_cases upper' : b' = infinity
  · subst upper'
    rw [add_comm a', infinity_add (by rwa [add_comm])]
    exact le_infinity number
  have fa : a.isFinite = true := by
    rcases infinity_or_finite ha with rfl | rfl | fa
    · exact absurd rfl lower
    · exact absurd (eq_infinity_of_le h) upper
    · exact fa
  have fb : b.isFinite = true := by
    rcases infinity_or_finite hb with rfl | rfl | fb
    · exact absurd rfl lower'
    · exact absurd (eq_infinity_of_le h') upper'
    · exact fb
  have fa' : a'.isFinite = true := by
    rcases infinity_or_finite ha' with rfl | rfl | fa'
    · exact absurd (eq_negInfinity_of_le h) lower
    · exact absurd rfl upper
    · exact fa'
  have fb' : b'.isFinite = true := by
    rcases infinity_or_finite hb' with rfl | rfl | fb'
    · exact absurd (eq_negInfinity_of_le h') lower'
    · exact absurd rfl upper'
    · exact fb'
  obtain ⟨x, x', hx, hx', hle⟩ := le_iff.1 h
  obtain ⟨y, y', hy, hy', hle'⟩ := le_iff.1 h'
  have := (exactUnits_le_iff hx hx').2 hle
  have := (exactUnits_le_iff hy hy').2 hle'
  rw [le_iff_of_place (place_add fa fb) (place_add fa' fb')]
  exact f.signedCode_mono (by decide) (by decide) (by omega)

/-! ## Products -/

theorem sign_place (negative : Bool) {code : Nat} (h : code ≠ 0) :
    (if negative then -(code : Int) else code).sign = if negative then -1 else 1 := by
  cases negative
  · exact Int.sign_eq_one_of_pos (by simpa using Nat.pos_of_ne_zero h)
  · exact Int.sign_eq_neg_one_of_neg (by simpa using Nat.pos_of_ne_zero h)

theorem natAbs_place (negative : Bool) (code : Nat) :
    (if negative then -(code : Int) else code).natAbs = code := by
  cases negative <;> simp

/-- The place of a signed product of magnitudes. -/
theorem placeProduct_signed (n m : Bool) (c d : Nat) :
    f.placeProduct (if n then -(c : Int) else c) (if m then -(d : Int) else d)
      = if n != m then -(f.codeProduct c d : Int) else f.codeProduct c d := by
  by_cases hc : c = 0
  · subst hc
    simp [Format.placeProduct, Format.codeProduct]
  by_cases hd : d = 0
  · subst hd
    simp [Format.placeProduct, Format.codeProduct]
  rw [Format.placeProduct, natAbs_place, natAbs_place, sign_place n hc, sign_place m hd]
  cases n <;> cases m <;> simp

/-- The product of two numbers, if it is a number, is in the place that the factors' places tell. -/
theorem place_mul (ha : a.place = some x) (hb : b.place = some y) (h : (a * b).isNaN = false) :
    (a * b).place = some (f.placeProduct x y) := by
  cases a with
  | nan => cases ha
  | number n c hc =>
    cases b with
    | nan => cases hb
    | number m d hd =>
      cases ha
      cases hb
      rw [placeProduct_signed]
      change (Binary.mul (number n c hc) (number m d hd)).isNaN = false at h
      show (Binary.mul (number n c hc) (number m d hd)).place = _
      simp only [Binary.mul] at h ⊢
      split at h
      · split at h
        · cases h
        · rename_i infinite nonzero
          rw [if_pos infinite, if_neg nonzero, Format.codeProduct, if_neg nonzero, if_pos infinite]
          rfl
      · rename_i finite
        rw [if_neg finite]
        by_cases zero : c = 0 ∨ d = 0
        · have hzero : f.units c * f.units d = 0 := by
            rcases zero with rfl | rfl <;> simp [f.units_zero]
          rw [hzero, Format.codeProduct, if_pos zero, ofUnits]
          simp only [place, f.nearestCode_zero]
        · rw [Format.codeProduct, if_neg zero, if_neg finite]
          rfl

/-- Only zero and infinity have no product. -/
theorem isNaN_mul_iff (ha : a.place = some x) (hb : b.place = some y) :
    (a * b).isNaN = true ↔
      (x = 0 ∧ y.natAbs = f.infinityCode) ∨ (x.natAbs = f.infinityCode ∧ y = 0) := by
  cases a with
  | nan => cases ha
  | number n c hc =>
    cases b with
    | nan => cases hb
    | number m d hd =>
      cases ha
      cases hb
      have hp := f.two_le_code
      rw [natAbs_place, natAbs_place]
      have hn : (if n then -(c : Int) else c) = 0 ↔ c = 0 := by cases n <;> simp
      have hm : (if m then -(d : Int) else d) = 0 ↔ d = 0 := by cases m <;> simp
      rw [hn, hm]
      show (Binary.mul (number n c hc) (number m d hd)).isNaN = true ↔ _
      simp only [Binary.mul]
      split
      · split
        · exact iff_of_true rfl (by omega)
        · exact iff_of_false Bool.false_ne_true (by omega)
      · exact iff_of_false Bool.false_ne_true (by omega)

/-- A product with a number is none if the other factor is none, or zero meets infinity. -/
theorem isNaN_mul_number_iff (hb : b.isNaN = false) :
    (a * b).isNaN = true ↔ a.isNaN = true ∨ a.isZero = true ∧ b.isInfinite = true ∨
      a.isInfinite = true ∧ b.isZero = true := by
  obtain ⟨y, hy⟩ := exists_place hb
  cases ha : a.isNaN
  · obtain ⟨x, hx⟩ := exists_place ha
    rw [isNaN_mul_iff hx hy, isZero_iff hx, isInfinite_iff hx, isZero_iff hy, isInfinite_iff hy]
    exact (or_iff_right Bool.false_ne_true).symm
  · cases a with
    | nan => exact iff_of_true rfl (.inl rfl)
    | number negative code bounded => cases ha

theorem isZero_mul (h : (a * b).isNaN = false) (ha : a.isNaN = false) (hb : b.isNaN = false)
    (zero : a.isZero = true ∨ b.isZero = true) : (a * b).isZero = true := by
  obtain ⟨x, hx⟩ := exists_place ha
  obtain ⟨y, hy⟩ := exists_place hb
  rw [isZero_iff (place_mul hx hy h)]
  rw [isZero_iff hx, isZero_iff hy] at zero
  rcases zero with rfl | rfl
  · rw [f.placeProduct_comm, f.placeProduct_zero]
  · exact f.placeProduct_zero x

theorem mul_nonneg (ha : zero ≤ a) (hb : zero ≤ b) (h : (a * b).isNaN = false) : zero ≤ a * b := by
  obtain ⟨x, hx⟩ := exists_place (isNaN_of_le ha).2
  obtain ⟨y, hy⟩ := exists_place (isNaN_of_le hb).2
  rw [le_iff_of_place place_zero hx] at ha
  rw [le_iff_of_place place_zero hy] at hb
  rw [le_iff_of_place place_zero (place_mul hx hy h)]
  exact f.placeProduct_nonneg ha hb

/-- A product of numbers from zero on grows with both of its factors. -/
theorem mul_le_mul (ha : zero ≤ a) (hb : zero ≤ b) (h : a ≤ a') (h' : b ≤ b')
    (number : (a * b).isNaN = false) (number' : (a' * b').isNaN = false) : a * b ≤ a' * b' := by
  obtain ⟨x, x', hx, hx', hxx⟩ := le_iff.1 h
  obtain ⟨y, y', hy, hy', hyy⟩ := le_iff.1 h'
  rw [le_iff_of_place place_zero hx] at ha
  rw [le_iff_of_place place_zero hy] at hb
  rw [le_iff_of_place (place_mul hx hy number) (place_mul hx' hy' number')]
  calc f.placeProduct x y
      ≤ f.placeProduct x' y := f.placeProduct_le_of_nonneg hxx hb (natAbs_place_le hx)
        (natAbs_place_le hx')
    _ = f.placeProduct y x' := f.placeProduct_comm x' y
    _ ≤ f.placeProduct y' x' := f.placeProduct_le_of_nonneg hyy (Int.le_trans ha hxx)
        (natAbs_place_le hy) (natAbs_place_le hy')
    _ = f.placeProduct x' y' := f.placeProduct_comm y' x'

end Binary

end BranchBound
