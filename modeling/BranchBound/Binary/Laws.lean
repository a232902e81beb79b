/-
Laws of rounding. Main statements: a number of a format rounds to itself (`nearestCode_units`), a
larger quotient never rounds to a smaller code (`nearestCode_mono`), and codes stand for units in
order (`units_le_units_iff`).
-/
import BranchBound.Binary.Rounding

namespace BranchBound

/-! ## Rounding to natural numbers -/

/-- A whole quotient is its own rounding. -/
theorem nearestEven_mul {n d : Nat} (hd : 0 < d) : nearestEven (n * d) d = n := by
  simp [nearestEven, Nat.mul_div_cancel n hd, hd]

theorem div_le_nearestEven (n d : Nat) : n / d ≤ nearestEven n d := by
  unfold nearestEven
  split
  · exact Nat.le_refl _
  · split <;> omega

theorem nearestEven_le (n d : Nat) : nearestEven n d ≤ n / d + 1 := by
  unfold nearestEven
  split
  · omega
  · split <;> omega

theorem div_le_div_of_ratio_le {n₁ d₁ n₂ d₂ : Nat} (h₁ : 0 < d₁) (h₂ : 0 < d₂)
    (h : n₁ * d₂ ≤ n₂ * d₁) : n₁ / d₁ ≤ n₂ / d₂ := by
  rw [Nat.le_div_iff_mul_le h₂]
  refine Nat.le_of_mul_le_mul_right (Nat.le_trans ?_ h) h₁
  rw [Nat.mul_right_comm]
  exact Nat.mul_le_mul_right _ (Nat.div_mul_le_self n₁ d₁)

/-- A larger quotient does not round to a smaller number. -/
theorem nearestEven_mono {n₁ d₁ n₂ d₂ : Nat} (h₁ : 0 < d₁) (h₂ : 0 < d₂)
    (h : n₁ * d₂ ≤ n₂ * d₁) : nearestEven n₁ d₁ ≤ nearestEven n₂ d₂ := by
  rcases Nat.lt_or_eq_of_le (div_le_div_of_ratio_le h₁ h₂ h) with hq | hq
  · exact Nat.le_trans (nearestEven_le ..) (Nat.le_trans hq (div_le_nearestEven ..))
  · have hr : n₁ % d₁ * d₂ ≤ n₂ % d₂ * d₁ := by
      have e₁ : n₁ * d₂ = n₁ / d₁ * d₁ * d₂ + n₁ % d₁ * d₂ := by
        rw [← Nat.add_mul, Nat.mul_comm (n₁ / d₁), Nat.div_add_mod]
      have e₂ : n₂ * d₁ = n₁ / d₁ * d₁ * d₂ + n₂ % d₂ * d₁ := by
        rw [Nat.mul_right_comm, ← Nat.add_mul, hq, Nat.mul_comm (n₂ / d₂), Nat.div_add_mod]
      omega
    unfold nearestEven
    rw [← hq]
    by_cases a : 2 * (n₁ % d₁) < d₁
    · rw [if_pos a]
      split
      · exact Nat.le_refl _
      · split <;> omega
    · have b : ¬ 2 * (n₂ % d₂) < d₂ := by
        intro b
        have := Nat.mul_lt_mul_of_pos_right b h₁
        have := Nat.mul_le_mul_right d₂ (Nat.le_of_not_lt a)
        have : d₁ * d₂ = d₂ * d₁ := Nat.mul_comm ..
        have : 2 * (n₁ % d₁) * d₂ ≤ 2 * (n₂ % d₂) * d₁ := by
          rw [Nat.mul_assoc, Nat.mul_assoc]; omega
        omega
      rw [if_neg a, if_neg b]
      by_cases c : d₁ < 2 * (n₁ % d₁)
      · have d : d₂ < 2 * (n₂ % d₂) := by
          apply Nat.lt_of_not_le
          intro d
          have := Nat.mul_lt_mul_of_pos_right c h₂
          have := Nat.mul_le_mul_right d₁ d
          have : d₁ * d₂ = d₂ * d₁ := Nat.mul_comm ..
          have : 2 * (n₁ % d₁) * d₂ ≤ 2 * (n₂ % d₂) * d₁ := by
            rw [Nat.mul_assoc, Nat.mul_assoc]; omega
          omega
        exact Nat.le_of_eq (by rw [if_pos c, if_pos d])
      · rw [if_neg c]
        split <;> omega

namespace Format

variable (f : Format)

/-! ## The units of a code -/

/-- Below two full significands a code is the number of its units. -/
theorem units_of_lt {code : Nat} (h : code < 2 ^ (f.fractionBits + 1)) : f.units code = code := by
  unfold units
  split
  · rfl
  · rename_i hc
    have hp := Nat.two_pow_pos f.fractionBits
    have : 2 ^ (f.fractionBits + 1) = 2 ^ f.fractionBits + 2 ^ f.fractionBits := by
      rw [Nat.pow_succ]; omega
    have hd : code / 2 ^ f.fractionBits = 1 := by
      rw [Nat.div_eq_iff hp]; omega
    have := Nat.div_add_mod code (2 ^ f.fractionBits)
    rw [hd, Nat.mul_one] at this
    rw [hd]
    simpa using this

/-- A code from the first full significand on is a number of doublings and a full significand. -/
theorem units_scaled (s m : Nat) (h : 2 ^ f.fractionBits ≤ m) (h' : m < 2 ^ (f.fractionBits + 1)) :
    f.units (s * 2 ^ f.fractionBits + m) = m * 2 ^ s := by
  have hp := Nat.two_pow_pos f.fractionBits
  have e : 2 ^ (f.fractionBits + 1) = 2 ^ f.fractionBits + 2 ^ f.fractionBits := by
    rw [Nat.pow_succ]; omega
  obtain ⟨k, rfl⟩ := Nat.exists_eq_add_of_le h
  have hk : k < 2 ^ f.fractionBits := by omega
  have hc : s * 2 ^ f.fractionBits + (2 ^ f.fractionBits + k)
      = k + (s + 1) * 2 ^ f.fractionBits := by
    rw [Nat.add_mul, Nat.one_mul]; omega
  unfold units
  rw [hc, Nat.add_mul_mod_self_right, Nat.add_mul_div_right _ _ hp, Nat.mod_eq_of_lt hk,
    Nat.div_eq_of_lt hk, if_neg (by rw [Nat.add_mul, Nat.one_mul]; omega)]
  simp

/-! ## Rounding to codes -/

/-- A number of the format rounds to itself. -/
theorem nearestCode_units {code : Nat} (h : code ≤ f.infinityCode) :
    f.nearestCode (f.units code) 1 = code := by
  have hp := Nat.two_pow_pos f.fractionBits
  have e : 2 ^ (f.fractionBits + 1) = 2 ^ f.fractionBits + 2 ^ f.fractionBits := by
    rw [Nat.pow_succ]; omega
  by_cases hc : code < 2 ^ (f.fractionBits + 1)
  · have hl : code.log2 - f.fractionBits = 0 := by
      by_cases h0 : code = 0
      · simp [h0]
      · have := (Nat.log2_lt h0).2 hc
        omega
    have := nearestEven_mul (n := code) (d := 1) (by decide)
    rw [Nat.mul_one] at this
    simp [nearestCode, units_of_lt f hc, hl, this, h]
  · -- the code splits into doublings and a full significand
    obtain ⟨s, m, hm, hm', rfl⟩ : ∃ s m, 2 ^ f.fractionBits ≤ m ∧ m < 2 ^ (f.fractionBits + 1) ∧
        code = s * 2 ^ f.fractionBits + m := by
      have hd : 1 ≤ code / 2 ^ f.fractionBits := (Nat.le_div_iff_mul_le hp).2 (by omega)
      refine ⟨code / 2 ^ f.fractionBits - 1, 2 ^ f.fractionBits + code % 2 ^ f.fractionBits,
        by omega, by have := Nat.mod_lt code hp; omega, ?_⟩
      have := Nat.div_add_mod code (2 ^ f.fractionBits)
      rw [Nat.sub_mul, Nat.one_mul, Nat.mul_comm]
      have : 2 ^ f.fractionBits * 1 ≤ 2 ^ f.fractionBits * (code / 2 ^ f.fractionBits) :=
        Nat.mul_le_mul_left _ hd
      omega
    have hl : (m * 2 ^ s).log2 = f.fractionBits + s := by
      have hm0 : m * 2 ^ s ≠ 0 := Nat.ne_of_gt (Nat.mul_pos (by omega) (Nat.two_pow_pos s))
      rw [Nat.log2_eq_iff hm0]
      constructor
      · rw [Nat.pow_add]; exact Nat.mul_le_mul_right _ hm
      · rw [show f.fractionBits + s + 1 = f.fractionBits + 1 + s by omega, Nat.pow_add]
        exact Nat.mul_lt_mul_of_pos_right hm' (Nat.two_pow_pos s)
    rw [units_scaled f s m hm hm']
    simp only [nearestCode, Nat.div_one, hl, Nat.add_sub_cancel_left, Nat.one_mul,
      nearestEven_mul (Nat.two_pow_pos s)]
    exact Nat.min_eq_left h

/-- The doublings of a quotient are enough: what is left is less than two full significands. -/
theorem div_lt_of_doublings (n d : Nat) :
    n / (d * 2 ^ ((n / d).log2 - f.fractionBits)) < 2 ^ (f.fractionBits + 1) := by
  rw [← Nat.div_div_eq_div_mul, Nat.div_lt_iff_lt_mul (Nat.two_pow_pos _), ← Nat.pow_add]
  exact Nat.lt_of_lt_of_le Nat.lt_log2_self (Nat.pow_le_pow_right (by decide) (by omega))

/-- The doublings of a quotient are not too many: if there are any, a full significand is left. -/
theorem le_div_of_doublings {n d : Nat} (h : 0 < (n / d).log2 - f.fractionBits) :
    2 ^ f.fractionBits ≤ n / (d * 2 ^ ((n / d).log2 - f.fractionBits)) := by
  have h0 : n / d ≠ 0 := by
    intro h0
    simp [h0] at h
  rw [← Nat.div_div_eq_div_mul, Nat.le_div_iff_mul_le (Nat.two_pow_pos _), ← Nat.pow_add]
  exact Nat.le_trans (Nat.pow_le_pow_right (by decide) (by omega)) (Nat.log2_self_le h0)

/-- The binary logarithm keeps order. -/
theorem log2_mono {m n : Nat} (h : m ≤ n) : m.log2 ≤ n.log2 := by
  by_cases hm : m = 0
  · simp [hm]
  · rw [Nat.le_log2 (by omega)]
    exact Nat.le_trans (Nat.log2_self_le hm) h

/-- A larger quotient does not round to a smaller code. -/
theorem nearestCode_mono {n₁ d₁ n₂ d₂ : Nat} (h₁ : 0 < d₁) (h₂ : 0 < d₂)
    (h : n₁ * d₂ ≤ n₂ * d₁) : f.nearestCode n₁ d₁ ≤ f.nearestCode n₂ d₂ := by
  have hlog := log2_mono (div_le_div_of_ratio_le h₁ h₂ h)
  have hlt := div_lt_of_doublings f n₁ d₁
  have hge := le_div_of_doublings f (n := n₂) (d := d₂)
  have hne₁ := nearestEven_le n₁ (d₁ * 2 ^ ((n₁ / d₁).log2 - f.fractionBits))
  have hne₂ := div_le_nearestEven n₂ (d₂ * 2 ^ ((n₂ / d₂).log2 - f.fractionBits))
  unfold nearestCode
  generalize hs₁ : (n₁ / d₁).log2 - f.fractionBits = s₁ at *
  generalize hs₂ : (n₂ / d₂).log2 - f.fractionBits = s₂ at *
  simp only
  have hs : s₁ ≤ s₂ := by omega
  refine Nat.le_min.2 ⟨Nat.le_trans (Nat.min_le_left ..) ?_, Nat.min_le_right ..⟩
  rcases Nat.lt_or_eq_of_le hs with hs | rfl
  · have e : 2 ^ (f.fractionBits + 1) = 2 ^ f.fractionBits + 2 ^ f.fractionBits := by
      rw [Nat.pow_succ]; omega
    have hm : (s₁ + 1) * 2 ^ f.fractionBits ≤ s₂ * 2 ^ f.fractionBits := Nat.mul_le_mul_right _ hs
    rw [Nat.add_mul, Nat.one_mul] at hm
    have := hge (by omega)
    omega
  · refine Nat.add_le_add_left (nearestEven_mono (Nat.mul_pos h₁ (Nat.two_pow_pos _))
      (Nat.mul_pos h₂ (Nat.two_pow_pos _)) ?_) _
    rw [← Nat.mul_assoc, ← Nat.mul_assoc]
    exact Nat.mul_le_mul_right _ h

/-- Codes stand for units in order. -/
theorem units_le_units_iff {c d : Nat} (hc : c ≤ f.infinityCode) (hd : d ≤ f.infinityCode) :
    f.units c ≤ f.units d ↔ c ≤ d := by
  constructor
  · intro h
    have : f.nearestCode (f.units c) 1 ≤ f.nearestCode (f.units d) 1 :=
      f.nearestCode_mono (by decide) (by decide) (by omega)
    rwa [nearestCode_units f hc, nearestCode_units f hd] at this
  · intro h
    rcases Nat.lt_or_eq_of_le h with h | rfl
    · apply Nat.le_of_lt
      apply Nat.lt_of_not_le
      intro hle
      have : f.nearestCode (f.units d) 1 ≤ f.nearestCode (f.units c) 1 :=
        f.nearestCode_mono (by decide) (by decide) (by omega)
      rw [nearestCode_units f hc, nearestCode_units f hd] at this
      omega
    · exact Nat.le_refl _

end Format

end BranchBound
