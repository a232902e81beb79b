/-
The shortest decimal. Main statement: it reads back as the number it was made of
(`ofDecimal_shortest`). A decimal is read as the number it is nearest to, and what is nearest to a
number is what lies between the midpoints to its neighbours (`roundsTo_iff`).
-/
import BranchBound.Binary.Midpoints
import BranchBound.Decimal.Shortest

namespace BranchBound

namespace Format

variable (f : Format)

/-! ## The decimals of a code -/

/-- The interval between the midpoints holds what rounds to the code. -/
theorem roundsTo_iff {code n : Nat} (h0 : 0 < code) (hc : code < f.infinityCode) :
    f.roundsTo code n = true ↔ f.nearestCode n (5 ^ f.unitScale) = code := by
  have h5 : 0 < 5 ^ f.unitScale := Nat.pow_pos (by decide)
  have below := f.succ_le_nearestCode_iff (n := n) (show code - 1 < f.infinityCode by omega) h5
  have above := f.succ_le_nearestCode_iff (n := n) hc h5
  rw [show code - 1 + 1 = code by omega] at below
  unfold roundsTo decimalUnits
  rw [Nat.add_mul] at below above
  by_cases h : code % 2 = 0
  · have h' : ¬ (code - 1) % 2 = 0 := by omega
    rw [if_pos h] at above
    rw [if_neg h'] at below
    simp only [h, if_true, Bool.and_eq_true, decide_eq_true_eq]
    omega
  · have h' : (code - 1) % 2 = 0 := by omega
    rw [if_neg h] at above
    rw [if_pos h'] at below
    simp only [h, if_false, Bool.and_eq_true, decide_eq_true_eq]
    omega

/-- A code is a decimal of its own. -/
theorem roundsTo_decimalUnits {code : Nat} (h0 : 0 < code) (hc : code < f.infinityCode) :
    f.roundsTo code (f.decimalUnits code) = true := by
  rw [roundsTo_iff f h0 hc]
  have : f.nearestCode (f.decimalUnits code) (5 ^ f.unitScale) = f.nearestCode (f.units code) 1 :=
    f.nearestCode_congr (Nat.pow_pos (by decide)) (by decide) (by unfold decimalUnits; omega)
  rw [this, nearestCode_units f (Nat.le_of_lt hc)]

/-! ## One grid -/

theorem roundsTo_of_onGrid {code step digits : Nat} (h : f.onGrid code step = some digits) :
    f.roundsTo code (digits * step) = true := by
  unfold onGrid at h
  simp only at h
  split at h
  · rename_i below above
    cases h
    split
    · exact below
    · exact above
  · rename_i below above
    cases h
    exact below
  · rename_i below above
    cases h
    exact above
  · cases h

end Format

/-! ## Reading back -/

namespace Binary

variable {f : Format}

/-- A multiple of a power of ten is read as the number it is nearest to. -/
theorem ofDecimal_multiple (negative : Bool) (digits places : Nat) :
    (ofDecimal negative digits ((places : Int) - f.unitScale) : Binary f) =
      ofUnits negative (digits * 10 ^ places) (5 ^ f.unitScale) := by
  unfold ofDecimal
  refine ofUnits_congr negative (Nat.pow_pos (by decide)) (Nat.pow_pos (by decide)) ?_
  have ten : 10 ^ f.unitScale = 2 ^ f.unitScale * 5 ^ f.unitScale := by
    rw [← Nat.mul_pow]
  have places_eq : ((places : Int) - f.unitScale).toNat + f.unitScale
      = places + (-((places : Int) - f.unitScale)).toNat := by omega
  rw [Nat.mul_assoc, Nat.mul_assoc, Nat.mul_assoc, ← ten, ← Nat.pow_add, ← Nat.pow_add, places_eq]

theorem ofDecimal_of_roundsTo (negative : Bool) {code digits places : Nat} (h0 : 0 < code)
    (hc : code < f.infinityCode) (h : f.roundsTo code (digits * 10 ^ places) = true) :
    ofDecimal negative digits ((places : Int) - f.unitScale)
      = number negative code (Nat.le_of_lt hc) := by
  rw [ofDecimal_multiple]
  simp only [ofUnits, (f.roundsTo_iff h0 hc).1 h]

theorem ofDecimal_coarsest (negative : Bool) {code : Nat} (h0 : 0 < code)
    (hc : code < f.infinityCode) (places : Nat) :
    ofDecimal negative (f.coarsest code places).digits (f.coarsest code places).exponent
      = number negative code (Nat.le_of_lt hc) := by
  induction places with
  | zero =>
    have own : f.roundsTo code (f.decimalUnits code * 10 ^ 0) = true := by
      simpa using f.roundsTo_decimalUnits h0 hc
    have := ofDecimal_of_roundsTo negative h0 hc own
    simpa [Format.coarsest] using this
  | succ places ih =>
    unfold Format.coarsest
    split
    · rename_i digits h
      have := ofDecimal_of_roundsTo negative h0 hc (f.roundsTo_of_onGrid h)
      exact_mod_cast this
    · exact ih

/-- Zeros at the end of the digits say nothing. -/
theorem ofDecimal_reduce (negative : Bool) (d : Decimal) :
    (ofDecimal negative d.reduce.digits d.reduce.exponent : Binary f)
      = ofDecimal negative d.digits d.exponent := by
  fun_induction Decimal.reduce d with
  | case1 d h ih =>
    rw [ih]
    unfold ofDecimal
    refine ofUnits_congr negative (Nat.pow_pos (by decide)) (Nat.pow_pos (by decide)) ?_
    have hd : d.digits = d.digits / 10 * 10 := by omega
    have places_eq : (d.exponent + 1).toNat + (-d.exponent).toNat
        = d.exponent.toNat + 1 + (-(d.exponent + 1)).toNat := by omega
    generalize d.digits / 10 = q at *
    rw [hd, Nat.mul_right_comm _ _ (10 ^ (-d.exponent).toNat),
      Nat.mul_right_comm _ _ (10 ^ (-(d.exponent + 1)).toNat)]
    congr 1
    rw [Nat.mul_assoc, ← Nat.pow_add, places_eq, Nat.pow_add, Nat.pow_succ']
    simp only [Nat.mul_assoc]
  | case2 d h => rfl

/-- The shortest decimal reads back as the number it was made of. -/
theorem ofDecimal_shortest (negative : Bool) {code : Nat} (h0 : 0 < code)
    (hc : code < f.infinityCode) :
    ofDecimal negative (f.shortest code).digits (f.shortest code).exponent
      = number negative code (Nat.le_of_lt hc) := by
  unfold Format.shortest
  rw [ofDecimal_reduce, ofDecimal_coarsest negative h0 hc]

end Binary

end BranchBound
