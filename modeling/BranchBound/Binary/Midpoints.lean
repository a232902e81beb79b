/-
Which quotients round to a code. Main statement: a quotient rounds above a code from the midpoint
to the next code on, and at the midpoint itself if the code is odd (`succ_le_nearestCode_iff`).
-/
import BranchBound.Binary.Laws

namespace BranchBound

namespace Format

variable (f : Format)

/-- Quotients of the same value round alike. -/
theorem nearestCode_congr {n₁ d₁ n₂ d₂ : Nat} (h₁ : 0 < d₁) (h₂ : 0 < d₂)
    (h : n₁ * d₂ = n₂ * d₁) : f.nearestCode n₁ d₁ = f.nearestCode n₂ d₂ :=
  Nat.le_antisymm (f.nearestCode_mono h₁ h₂ (Nat.le_of_eq h))
    (f.nearestCode_mono h₂ h₁ (Nat.le_of_eq h.symm))

/-! ## Neighbours -/

theorem pow_succ_fractionBits : 2 ^ (f.fractionBits + 1) = 2 * 2 ^ f.fractionBits := by
  rw [Nat.pow_succ]; omega

/-- A code and its successor: doublings and a significand that both share. -/
theorem exists_doublings (code : Nat) : ∃ s m, code = s * 2 ^ f.fractionBits + m ∧
    (s = 0 ∨ 2 ^ f.fractionBits ≤ m) ∧ m < 2 ^ (f.fractionBits + 1) ∧
    f.units code = m * 2 ^ s ∧ f.units (code + 1) = (m + 1) * 2 ^ s := by
  have hp := Nat.two_pow_pos f.fractionBits
  have e := f.pow_succ_fractionBits
  have next : ∀ s m, 2 ^ f.fractionBits ≤ m + 1 → m < 2 ^ (f.fractionBits + 1) →
      f.units (s * 2 ^ f.fractionBits + (m + 1)) = (m + 1) * 2 ^ s := by
    intro s m hm hm'
    rcases Nat.lt_or_eq_of_le (Nat.succ_le_of_lt hm') with h | h
    · exact f.units_scaled s (m + 1) hm h
    · have h' : m + 1 = 2 ^ f.fractionBits + 2 ^ f.fractionBits := by omega
      have := f.units_scaled (s + 1) (2 ^ f.fractionBits) (Nat.le_refl _) (by omega)
      rw [h', Nat.add_mul, ← Nat.add_assoc, ← Nat.succ_mul, this, Nat.pow_succ', Nat.mul_left_comm]
      omega
  by_cases hc : code < 2 ^ (f.fractionBits + 1)
  · refine ⟨0, code, by omega, Or.inl rfl, hc, by rw [units_of_lt f hc]; omega, ?_⟩
    by_cases hc' : 2 ^ f.fractionBits ≤ code + 1
    · have := next 0 code hc' hc
      rwa [Nat.zero_mul, Nat.zero_add] at this
    · rw [units_of_lt f (by omega)]; omega
  · have hd : 1 ≤ code / 2 ^ f.fractionBits := (Nat.le_div_iff_mul_le hp).2 (by omega)
    have hdm := Nat.div_add_mod code (2 ^ f.fractionBits)
    have hmod := Nat.mod_lt code hp
    have hcode : code = (code / 2 ^ f.fractionBits - 1) * 2 ^ f.fractionBits
        + (2 ^ f.fractionBits + code % 2 ^ f.fractionBits) := by
      have : 2 ^ f.fractionBits * 1 ≤ 2 ^ f.fractionBits * (code / 2 ^ f.fractionBits) :=
        Nat.mul_le_mul_left _ hd
      rw [Nat.sub_mul, Nat.one_mul, Nat.mul_comm]
      omega
    refine ⟨_, _, hcode, Or.inr (by omega), by omega, ?_, ?_⟩
    · conv => lhs; rw [hcode]
      exact f.units_scaled _ _ (by omega) (by omega)
    · conv => lhs; rw [hcode, Nat.add_assoc]
      exact next _ _ (by omega) (by omega)

theorem units_lt_units {c d : Nat} (h : c < d) (hd : d ≤ f.infinityCode) : f.units c < f.units d :=
  Nat.lt_of_not_le fun hle => by
    have := (f.units_le_units_iff hd (Nat.le_of_lt (Nat.lt_of_lt_of_le h hd))).1 hle
    omega

/-- A quotient rounds to a code above another one from the midpoint on, at the midpoint itself only
if the lower code is odd. -/
theorem succ_le_nearestCode_iff {code n d : Nat} (hc : code < f.infinityCode) (hd : 0 < d) :
    code + 1 ≤ f.nearestCode n d ↔
      if code % 2 = 0 then (f.units code + f.units (code + 1)) * d < 2 * n
      else (f.units code + f.units (code + 1)) * d ≤ 2 * n := by
  have hu := f.units_lt_units (Nat.lt_succ_self code) hc
  have hud : f.units code * d < f.units (code + 1) * d := Nat.mul_lt_mul_of_pos_right hu hd
  rw [Nat.add_mul]
  by_cases lower : n < f.units code * d
  · have hle : f.nearestCode n d ≤ f.nearestCode (f.units code) 1 :=
      f.nearestCode_mono hd (by decide) (by omega)
    rw [nearestCode_units f (Nat.le_of_lt hc)] at hle
    split <;> omega
  by_cases upper : f.units (code + 1) * d ≤ n
  · have hle : f.nearestCode (f.units (code + 1)) 1 ≤ f.nearestCode n d :=
      f.nearestCode_mono (by decide) hd (by omega)
    rw [nearestCode_units f hc] at hle
    split <;> omega
  -- between the two codes the quotient has the doublings of the lower one
  obtain ⟨s, m, hcode, hs, hm, hu₀, hu₁⟩ := f.exists_doublings code
  have hq : m * 2 ^ s ≤ n / d ∧ n / d < (m + 1) * 2 ^ s := by
    rw [← hu₀, ← hu₁]
    exact ⟨(Nat.le_div_iff_mul_le hd).2 (by omega), (Nat.div_lt_iff_lt_mul hd).2 (by omega)⟩
  have hdoublings : (n / d).log2 - f.fractionBits = s := by
    rcases hs with rfl | hs
    · by_cases h0 : n / d = 0
      · simp [h0]
      · have hlt : n / d < 2 ^ (f.fractionBits + 1) := by
          have := hq.2; simp only [Nat.pow_zero, Nat.mul_one] at this; omega
        have := (Nat.log2_lt h0).2 hlt
        omega
    · have hpos : n / d ≠ 0 := by
        have := Nat.mul_pos (Nat.lt_of_lt_of_le (Nat.two_pow_pos f.fractionBits) hs)
          (Nat.two_pow_pos s)
        omega
      have : (n / d).log2 = f.fractionBits + s := by
        rw [Nat.log2_eq_iff hpos]
        constructor
        · rw [Nat.pow_add]
          exact Nat.le_trans (Nat.mul_le_mul_right _ hs) hq.1
        · rw [show f.fractionBits + s + 1 = f.fractionBits + 1 + s by omega, Nat.pow_add]
          exact Nat.lt_of_lt_of_le hq.2 (Nat.mul_le_mul_right _ hm)
      omega
  have hquot : n / (d * 2 ^ s) = m := by
    rw [← Nat.div_div_eq_div_mul]
    have h2 := Nat.two_pow_pos s
    apply Nat.le_antisymm
    · exact Nat.le_of_lt_succ ((Nat.div_lt_iff_lt_mul h2).2 hq.2)
    · exact (Nat.le_div_iff_mul_le h2).2 hq.1
  have hrem := Nat.div_add_mod n (d * 2 ^ s)
  rw [hquot] at hrem
  have hmid : f.units code * d = d * 2 ^ s * m := by
    rw [hu₀, Nat.mul_comm, Nat.mul_comm m, Nat.mul_assoc]
  have hmid' : f.units (code + 1) * d = d * 2 ^ s * m + d * 2 ^ s := by
    rw [hu₁, Nat.mul_comm, Nat.mul_comm (m + 1), ← Nat.mul_assoc, Nat.mul_succ]
  have hparity : code % 2 = m % 2 := by
    obtain ⟨k, hk⟩ : ∃ k, 2 ^ f.fractionBits = 2 * k := by
      have := f.fractionBits_pos
      refine ⟨2 ^ (f.fractionBits - 1), ?_⟩
      rw [← Nat.pow_succ']
      congr 1
      omega
    rw [hcode, hk, Nat.mul_left_comm]
    omega
  simp only [nearestCode, hdoublings, nearestEven, hquot]
  rw [hmid, hmid', hparity]
  generalize d * 2 ^ s = w at *
  generalize w * m = wm at *
  generalize hP : s * 2 ^ f.fractionBits = sp at *
  rw [Nat.le_min]
  by_cases h₁ : 2 * (n % w) < w
  · rw [if_pos h₁]; split <;> omega
  · rw [if_neg h₁]
    by_cases h₂ : w < 2 * (n % w)
    · rw [if_pos h₂]; split <;> omega
    · rw [if_neg h₂]
      split <;> omega

end Format

/-- Quotients of the same value make the same number. -/
theorem Binary.ofUnits_congr {f : Format} (negative : Bool) {n₁ d₁ n₂ d₂ : Nat} (h₁ : 0 < d₁)
    (h₂ : 0 < d₂) (h : n₁ * d₂ = n₂ * d₁) :
    (ofUnits negative n₁ d₁ : Binary f) = ofUnits negative n₂ d₂ := by
  simp only [ofUnits, f.nearestCode_congr h₁ h₂ h]

end BranchBound
