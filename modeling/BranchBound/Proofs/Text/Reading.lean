/-
Text read back. A numeral is read as the number that it stands for (`Text.number?_repr`). A row of a
table is cut at its bars, and the blanks around a field are passed over: where the fields have no
blanks and bars, these are what is read, however wide the columns are (`Text.cells_row`).
-/
import BranchBound.Text.Columns
import Mathlib.Data.List.DropRight

namespace BranchBound.Text

/-! ## Numerals -/

/-- The number that some digits stand for, if there are digits and nothing else. -/
def number? (numeral : List Char) : Option Nat :=
  if !numeral.isEmpty && numeral.all Char.isDigit then some (Nat.ofDigitChars 10 numeral 0)
  else none

theorem number?_of_digits {digits : List Char} (hne : digits ≠ [])
    (hdigits : ∀ c ∈ digits, c.isDigit = true) :
    number? digits = some (Nat.ofDigitChars 10 digits 0) :=
  if_pos (by simp [hne, List.all_eq_true.2 hdigits])

theorem isDigit_of_mem_toDigits {n : Nat} {c : Char} (h : c ∈ Nat.toDigits 10 n) :
    c.isDigit = true :=
  Nat.isDigit_of_mem_toDigits (by decide) (by decide) h

/-- A numeral is read as its number. -/
theorem number?_repr (n : Nat) : number? n.repr.toList = some n := by
  rw [Nat.repr_eq_ofList_toDigits, String.toList_ofList,
    number?_of_digits Nat.toDigits_ne_nil fun c => isDigit_of_mem_toDigits,
    Nat.ofDigitChars_ten_toDigits]

/-! ## Rows -/

/-- A text without the blanks at its two ends. -/
def trimmed (text : List Char) : List Char := (text.dropWhile (· == ' ')).rdropWhile (· == ' ')

/-- The fields of a row: what stands between the bars, without the blanks around it. -/
def cells (row : String) : List String :=
  (row.toList.splitOn '|').map fun field => String.ofList (trimmed field)

/-- A text without blanks and bars. -/
def Solid (field : String) : Prop := ∀ c ∈ field.toList, c ≠ ' ' ∧ c ≠ '|'

/-- Characters that are no digits are no part of a numeral. -/
theorem notMem_repr {c : Char} (h : c.isDigit = false) (n : Nat) : c ∉ n.repr.toList := by
  rw [Nat.repr_eq_ofList_toDigits, String.toList_ofList]
  intro hmem
  rw [isDigit_of_mem_toDigits hmem] at h
  cases h

theorem solid_repr (n : Nat) : Solid n.repr := fun _ hc =>
  ⟨ne_of_mem_of_not_mem hc (notMem_repr (by decide) n),
    ne_of_mem_of_not_mem hc (notMem_repr (by decide) n)⟩

theorem trimmed_append_blanks (text : List Char) (n : Nat) :
    trimmed (text ++ List.replicate n ' ') = trimmed text := by
  have hblanks : (List.replicate n ' ').dropWhile (· == ' ') = [] := by simp
  unfold trimmed
  rw [List.dropWhile_append, hblanks]
  split
  · rename_i hempty
    rw [List.isEmpty_iff.1 hempty]
  · rw [List.rdropWhile, List.reverse_append, List.reverse_replicate,
      List.dropWhile_append_of_pos (by simp), List.rdropWhile]

theorem trimmed_of_solid {field : String} (h : Solid field) : trimmed field.toList = field.toList := by
  have hblank : ∀ c ∈ field.toList, ¬ (c == ' ') = true := fun c hc => by simpa using (h c hc).1
  unfold trimmed
  rw [List.dropWhile_eq_self_iff.2 fun hpos => hblank _ (List.getElem_mem hpos),
    List.rdropWhile_eq_self_iff.2 fun hne => hblank _ (List.getLast_mem hne)]

theorem mem_intercalate {c : Char} {between : List Char} {texts : List (List Char)}
    (h : c ∈ between.intercalate texts) : c ∈ between ∨ ∃ text ∈ texts, c ∈ text := by
  induction texts with
  | nil => simp at h
  | cons first rest ih =>
    rcases rest with _ | ⟨second, rest⟩
    · rw [List.intercalate_singleton] at h
      exact .inr ⟨first, List.mem_cons_self, h⟩
    · rw [List.intercalate_cons_cons, List.mem_append, List.mem_append] at h
      rcases h with (hfirst | hbetween) | hrest
      · exact .inr ⟨first, List.mem_cons_self, hfirst⟩
      · exact .inl hbetween
      · refine (ih hrest).imp_right ?_
        rintro ⟨text, htext, hc⟩
        exact ⟨text, List.mem_cons_of_mem _ htext, hc⟩

/-- A text without the character at which it is cut stays whole. -/
theorem splitOn_of_notMem {c : Char} {text : List Char} (h : c ∉ text) :
    text.splitOn c = [text] := by
  have hsplit : ([c].intercalate [text]).splitOn c = [text] :=
    List.splitOn_intercalate c (by simpa using h) (by simp)
  rwa [List.intercalate_singleton] at hsplit

/-- A blank before a text does not change what is read between its bars. -/
theorem map_trimmed_splitOn_cons (text : List Char) :
    ((' ' :: text).splitOn '|').map trimmed = (text.splitOn '|').map trimmed := by
  rw [List.splitOn, List.splitOnP_cons_eq_if_modifyHead, if_neg (by decide), ← List.splitOn]
  cases text.splitOn '|' <;> rfl

/-- Texts without bars are read between the bars. -/
theorem map_trimmed_splitOn {fields : List (List Char)} (hbar : ∀ field ∈ fields, '|' ∉ field)
    (hne : fields ≠ []) :
    (([' ', '|', ' '].intercalate fields).splitOn '|').map trimmed = fields.map trimmed := by
  induction fields with
  | nil => exact absurd rfl hne
  | cons first rest ih =>
    obtain ⟨hfirst, hrest⟩ := List.forall_mem_cons.1 hbar
    rcases rest with _ | ⟨second, rest⟩
    · rw [List.intercalate_singleton, splitOn_of_notMem hfirst]
    · have hcut : [' ', '|', ' '].intercalate (first :: second :: rest) =
          (first ++ [' ']) ++ '|' :: ' ' :: [' ', '|', ' '].intercalate (second :: rest) := by
        simp [List.intercalate_cons_cons]
      have hblank : '|' ∉ first ++ [' '] := by simpa using hfirst
      rw [hcut, List.splitOn_append_cons_self_of_not_mem hblank, List.map_cons,
        map_trimmed_splitOn_cons, ih hrest (by simp), List.map_cons (a := first)]
      rw [show trimmed (first ++ [' ']) = trimmed first from trimmed_append_blanks first 1]

/-- A text without bars is one field. -/
theorem cells_of_notMem {line : String} (h : '|' ∉ line.toList) :
    cells line = [String.ofList (trimmed line.toList)] := by
  rw [cells, splitOn_of_notMem h, List.map_singleton]

/-- What is read in a row are its fields. -/
theorem cells_row {fields : List (Nat × String)} (hne : fields ≠ [])
    (solid : ∀ field ∈ fields, Solid field.2) : cells (row fields) = fields.map (·.2) := by
  have hpadded : ∀ field : Nat × String, (padded field.1 field.2).toList =
      field.2.toList ++ List.replicate (field.1 - field.2.length) ' ' := by
    simp [padded]
  have hbar : ∀ piece ∈ (fields.map fun field => padded field.1 field.2).map String.toList,
      '|' ∉ piece := by
    intro piece hpiece hmem
    simp only [List.map_map, List.mem_map, Function.comp_apply] at hpiece
    obtain ⟨field, hfield, rfl⟩ := hpiece
    rw [hpadded, List.mem_append] at hmem
    rcases hmem with hmem | hmem
    · exact (solid field hfield _ hmem).2 rfl
    · exact absurd (List.eq_of_mem_replicate hmem) (by decide)
  have hread : ∀ field ∈ fields,
      String.ofList (trimmed (padded field.1 field.2).toList) = field.2 := by
    intro field hfield
    rw [hpadded, trimmed_append_blanks, trimmed_of_solid (solid field hfield), String.ofList_toList]
  calc cells (row fields)
      = ((([' ', '|', ' '].intercalate
          ((fields.map fun field => padded field.1 field.2).map String.toList)).splitOn '|').map
            trimmed).map String.ofList := by
        have hbetween : " | ".toList = [' ', '|', ' '] := by decide
        rw [cells, row, String.toList_intercalate, hbetween, List.map_map (g := String.ofList)]
        rfl
    _ = fields.map fun field => String.ofList (trimmed (padded field.1 field.2).toList) := by
        rw [map_trimmed_splitOn hbar (by simpa using hne)]
        simp
    _ = fields.map (·.2) := List.map_congr_left hread

end BranchBound.Text
