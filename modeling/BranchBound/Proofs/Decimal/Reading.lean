/-
Written numbers read back. A reader takes a sign, digits, and digits behind a point for the number
that is nearest to the decimal. Main statement (`Binary.read?_text`): a finite number that is written
without an exponent is read as itself, the sign of a zero included.
-/
import BranchBound.Decimal.Notation
import BranchBound.Decimal.ReadBack
import BranchBound.Proofs.Text.Reading

namespace BranchBound.Binary

variable {f : Format}

/-- The number nearest to a decimal without a sign, if the text is one. -/
def readMagnitude? (negative : Bool) (text : List Char) : Option (Binary f) :=
  match text.splitOn '.' with
  | [whole] => (Text.number? whole).map fun digits => ofDecimal negative digits 0
  | [whole, fraction] => (Text.number? (whole ++ fraction)).map fun digits =>
      ofDecimal negative digits (-fraction.length)
  | _ => none

/-- The number nearest to a decimal, if the text is one. -/
def read? (text : String) : Option (Binary f) :=
  match text.toList with
  | '-' :: magnitude => readMagnitude? true magnitude
  | magnitude => readMagnitude? false magnitude

/-! ## Digits and points -/

/-- Digits hold no point. -/
theorem point_notMem {digits : List Char} (h : ∀ c ∈ digits, c.isDigit = true) : '.' ∉ digits :=
  fun hmem => absurd (h _ hmem) (by decide)

theorem readMagnitude?_whole (negative : Bool) {whole : List Char} (hne : whole ≠ [])
    (hwhole : ∀ c ∈ whole, c.isDigit = true) :
    (readMagnitude? negative whole : Option (Binary f)) =
      some (ofDecimal negative (Nat.ofDigitChars 10 whole 0) 0) := by
  unfold readMagnitude?
  rw [Text.splitOn_of_notMem (point_notMem hwhole)]
  simp only [Text.number?_of_digits hne hwhole, Option.map_some]

theorem readMagnitude?_point (negative : Bool) {whole fraction : List Char}
    (hne : whole ++ fraction ≠ []) (hdigits : ∀ c ∈ whole ++ fraction, c.isDigit = true) :
    (readMagnitude? negative (whole ++ '.' :: fraction) : Option (Binary f)) =
      some (ofDecimal negative (Nat.ofDigitChars 10 (whole ++ fraction) 0) (-fraction.length)) := by
  obtain ⟨hwhole, hfraction⟩ := List.forall_mem_append.1 hdigits
  have hsplit : (['.'].intercalate [whole, fraction]).splitOn '.' = [whole, fraction] :=
    List.splitOn_intercalate '.'
      (by simpa using ⟨point_notMem hwhole, point_notMem hfraction⟩) (by simp)
  have htext : ['.'].intercalate [whole, fraction] = whole ++ '.' :: fraction := by
    simp [List.intercalate_cons_cons]
  unfold readMagnitude?
  rw [← htext, hsplit]
  simp only [Text.number?_of_digits hne hdigits, Option.map_some]

/-! ## Decimals -/

/-- Zeros behind the digits stand for a power of ten. -/
theorem ofDecimal_shift (negative : Bool) (digits n : Nat) :
    (ofDecimal negative (digits * 10 ^ n) 0 : Binary f) = ofDecimal negative digits n := by
  simp [ofDecimal]

/-- A decimal that is written without an exponent is read as the number nearest to it. -/
theorem readMagnitude?_text (negative : Bool) (d : Decimal) :
    (readMagnitude? negative (d.text .plain).toList : Option (Binary f)) =
      some (ofDecimal negative d.digits d.exponent) := by
  have hvalue : Nat.ofDigitChars 10 (Nat.toDigits 10 d.digits) 0 = d.digits :=
    Nat.ofDigitChars_ten_toDigits
  have hdigits : ∀ c ∈ Nat.toDigits 10 d.digits, c.isDigit = true :=
    fun c => Text.isDigit_of_mem_toDigits
  have hne : Nat.toDigits 10 d.digits ≠ [] := Nat.toDigits_ne_nil
  have hzeros : ∀ n, ∀ c ∈ List.replicate n '0', c.isDigit = true := fun n c hc => by
    rw [List.eq_of_mem_replicate hc]
    decide
  show readMagnitude? negative (Decimal.positional .plain (Nat.toDigits 10 d.digits)
    ((Nat.toDigits 10 d.digits).length + d.exponent)).toList = _
  generalize Nat.toDigits 10 d.digits = digits at *
  unfold Decimal.positional
  split
  · -- all digits are behind the point, after some zeros
    rename_i hplaces
    generalize hn : (-(digits.length + d.exponent)).toNat = n
    have htext : ("0." ++ String.ofList (List.replicate n '0' ++ digits)).toList =
        ['0'] ++ '.' :: (List.replicate n '0' ++ digits) := by simp
    have hall : ∀ c ∈ ['0'] ++ (List.replicate n '0' ++ digits), c.isDigit = true :=
      List.forall_mem_append.2 ⟨hzeros 1, List.forall_mem_append.2 ⟨hzeros n, hdigits⟩⟩
    have hnumber : Nat.ofDigitChars 10 (['0'] ++ (List.replicate n '0' ++ digits)) 0 = d.digits := by
      rw [Nat.ofDigitChars_append, Nat.ofDigitChars_append, Nat.ofDigitChars_replicate_zero]
      exact hvalue
    have hexponent : -((List.replicate n '0' ++ digits).length : Int) = d.exponent := by
      rw [List.length_append, List.length_replicate]
      omega
    rw [htext, readMagnitude?_point negative (by simp) hall, hnumber, hexponent]
  · split
    · -- all digits are before the point, and some zeros
      rename_i hplaces hlength
      generalize hn : ((digits.length + d.exponent).toNat - digits.length) = n
      have htext : (String.ofList (digits ++ List.replicate n '0') ++ Layout.plain.wholeEnding).toList =
          digits ++ List.replicate n '0' := by simp [Layout.plain]
      have hnumber : Nat.ofDigitChars 10 (digits ++ List.replicate n '0') 0 = d.digits * 10 ^ n := by
        rw [Nat.ofDigitChars_append, hvalue, Nat.ofDigitChars_replicate_zero, Nat.mul_comm]
      have hexponent : (n : Int) = d.exponent := by omega
      rw [htext, readMagnitude?_whole negative (by simp [hne])
        (List.forall_mem_append.2 ⟨hdigits, hzeros n⟩), hnumber, ofDecimal_shift, hexponent]
    · -- the point is among the digits
      rename_i hplaces hlength
      generalize hn : (digits.length + d.exponent).toNat = n at *
      have htext : (String.ofList (digits.take n) ++ "." ++ String.ofList (digits.drop n)).toList =
          digits.take n ++ '.' :: digits.drop n := by simp
      have hexponent : -((digits.drop n).length : Int) = d.exponent := by
        rw [List.length_drop]
        omega
      rw [htext, readMagnitude?_point negative (by rwa [List.take_append_drop])
        (by rwa [List.take_append_drop]), List.take_append_drop, hvalue, hexponent]

/-! ## Numbers -/

/-- A decimal that is written without an exponent has digits and points only. -/
theorem mem_text_plain {d : Decimal} {c : Char} (h : c ∈ (d.text .plain).toList) :
    c.isDigit = true ∨ c = '.' := by
  have hdigits : ∀ c ∈ Nat.toDigits 10 d.digits, c.isDigit = true :=
    fun c => Text.isDigit_of_mem_toDigits
  have hzero : '0'.isDigit = true := by decide
  have hmem : c ∈ (Decimal.positional .plain (Nat.toDigits 10 d.digits)
    ((Nat.toDigits 10 d.digits).length + d.exponent)).toList := h
  generalize Nat.toDigits 10 d.digits = digits at *
  have htake : ∀ n, c ∈ digits.take n → c.isDigit = true := fun n hc =>
    hdigits c (List.mem_of_mem_take hc)
  have hdrop : ∀ n, c ∈ digits.drop n → c.isDigit = true := fun n hc =>
    hdigits c (List.mem_of_mem_drop hc)
  unfold Decimal.positional at hmem
  split at hmem
  · simp at hmem
    rcases hmem with rfl | rfl | ⟨-, rfl⟩ | hc
    · exact .inl hzero
    · exact .inr rfl
    · exact .inl hzero
    · exact .inl (hdigits c hc)
  · split at hmem
    · simp [Layout.plain] at hmem
      rcases hmem with hc | ⟨-, rfl⟩
      · exact .inl (hdigits c hc)
      · exact .inl hzero
    · simp at hmem
      rcases hmem with hc | rfl | hc
      · exact .inl (htake _ hc)
      · exact .inr rfl
      · exact .inl (hdrop _ hc)

/-- The magnitude of a finite number without an exponent. -/
theorem text_plain (negative : Bool) {code : Nat} (bounded : code ≤ f.infinityCode)
    (finite : code ≠ f.infinityCode) :
    ∃ magnitude : String, (number negative code bounded).text .plain =
        (if negative then "-" else "") ++ magnitude ∧
      (∀ c ∈ magnitude.toList, c.isDigit = true ∨ c = '.') ∧
      (readMagnitude? negative magnitude.toList : Option (Binary f)) =
        some (number negative code bounded) := by
  rcases Nat.eq_zero_or_pos code with rfl | hpos
  · have hzero : '0'.isDigit = true := by decide
    refine ⟨"0", ?_, by simp [hzero], ?_⟩
    · simp [text, finite, Layout.plain]
    · have hread : (readMagnitude? negative "0".toList : Option (Binary f)) =
          some (ofDecimal negative 0 0) :=
        readMagnitude?_whole negative (by simp) (by simp [hzero])
      have hcode : f.nearestCode 0 1 = 0 := by simp [Format.nearestCode, nearestEven]
      rw [hread]
      simp [ofDecimal, ofUnits, hcode]
  · refine ⟨(f.shortest code).text .plain, ?_, fun c => mem_text_plain, ?_⟩
    · simp [text, finite, Nat.ne_of_gt hpos]
    · rw [readMagnitude?_text, ofDecimal_shortest negative hpos (by omega)]

/-- A finite number that is written without an exponent is read as itself. -/
theorem read?_text {a : Binary f} (finite : a.isFinite = true) : read? (a.text .plain) = some a := by
  rcases a with _ | ⟨negative, code, bounded⟩
  · cases finite
  · obtain ⟨magnitude, htext, hchars, hread⟩ :=
      text_plain negative bounded (by simpa [isFinite] using finite)
    rw [htext]
    cases negative
    · have hsign : ("" ++ magnitude).toList = magnitude.toList := by simp
      show read? ("" ++ magnitude) = _
      unfold read?
      rw [hsign]
      split
      · -- no sign stands before the magnitude
        rename_i hcons
        have hminus := hchars '-' (by rw [hcons]; exact List.mem_cons_self)
        exact absurd hminus (by decide)
      · exact hread
    · have hsign : ("-" ++ magnitude).toList = '-' :: magnitude.toList := by simp
      show read? ("-" ++ magnitude) = _
      unfold read?
      rw [hsign]
      exact hread

/-- A finite number that is written without an exponent can be a field of a row. -/
theorem solid_text {a : Binary f} (finite : a.isFinite = true) : Text.Solid (a.text .plain) := by
  rcases a with _ | ⟨negative, code, bounded⟩
  · cases finite
  · obtain ⟨magnitude, htext, hchars, -⟩ :=
      text_plain negative bounded (by simpa [isFinite] using finite)
    intro c hc
    rw [htext, String.toList_append, List.mem_append] at hc
    rcases hc with hsign | hmagnitude
    · have hminus : c = '-' := by
        cases negative with
        | false => simp at hsign
        | true => simpa using hsign
      rw [hminus]
      decide
    · constructor <;> rintro rfl <;> exact absurd (hchars _ hmagnitude) (by decide)

end BranchBound.Binary
