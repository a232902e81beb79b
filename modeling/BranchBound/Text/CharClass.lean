/-
Classes of characters, given by the ranges of their code points.
-/
namespace BranchBound.Text

/-- Whether closed ranges follow one another with gaps between them. -/
def isAscending : List (Nat × Nat) → Bool
  | [] => true
  | [r] => decide (r.1 ≤ r.2)
  | r :: s :: rest => decide (r.1 ≤ r.2) && decide (r.2 + 1 < s.1) && isAscending (s :: rest)

/-- All that follows a range begins behind it. -/
theorem lt_of_isAscending {r : Nat × Nat} {rest : List (Nat × Nat)}
    (h : isAscending (r :: rest) = true) : isAscending rest = true ∧ ∀ s ∈ rest, r.2 < s.1 := by
  induction rest generalizing r with
  | nil => exact ⟨rfl, by simp⟩
  | cons s rest ih =>
    simp only [isAscending, Bool.and_eq_true, decide_eq_true_eq] at h
    obtain ⟨⟨_, gap⟩, tail⟩ := h
    obtain ⟨_, behind⟩ := ih tail
    refine ⟨tail, fun t ht => ?_⟩
    have inOrder : s.1 ≤ s.2 := by
      cases rest with
      | nil => simpa [isAscending] using tail
      | cons u rest =>
        simp only [isAscending, Bool.and_eq_true, decide_eq_true_eq] at tail
        exact tail.1.1
    rcases List.mem_cons.1 ht with rfl | ht
    · omega
    · have := behind t ht
      omega

/-- A class of characters. -/
structure CharClass where
  /-- The first and the last code point of each range. -/
  ranges : List (Nat × Nat)
  /-- The ranges are as few as they can be, and in order. -/
  ascending : isAscending ranges = true := by decide +kernel

namespace CharClass

/-- Whether a code point is in one of some ranges. Only the first range that does not end before it
is looked at. -/
def isWithin (code : Nat) : List (Nat × Nat) → Bool
  | [] => false
  | r :: rest => if code ≤ r.2 then decide (r.1 ≤ code) else isWithin code rest

/-- In ranges that are in order that one is enough. -/
theorem isWithin_iff {code : Nat} {ranges : List (Nat × Nat)} (h : isAscending ranges = true) :
    isWithin code ranges = true ↔ ∃ r ∈ ranges, r.1 ≤ code ∧ code ≤ r.2 := by
  induction ranges with
  | nil => simp [isWithin]
  | cons r rest ih =>
    obtain ⟨tail, behind⟩ := lt_of_isAscending h
    unfold isWithin
    split
    · rename_i hle
      refine ⟨fun hr => ⟨r, List.mem_cons_self, of_decide_eq_true hr, hle⟩, ?_⟩
      rintro ⟨s, hs, hlo, _⟩
      rcases List.mem_cons.1 hs with rfl | hs
      · exact decide_eq_true hlo
      · have := behind s hs
        omega
    · rename_i hlt
      rw [ih tail]
      constructor
      · rintro ⟨s, hs, hin⟩
        exact ⟨s, List.mem_cons_of_mem _ hs, hin⟩
      · rintro ⟨s, hs, hin⟩
        rcases List.mem_cons.1 hs with rfl | hs
        · exact absurd hin.2 hlt
        · exact ⟨s, hs, hin⟩

def containsCode (k : CharClass) (code : Nat) : Bool := isWithin code k.ranges

def contains (k : CharClass) (c : Char) : Bool := k.containsCode c.toNat

/-- The ranges are the class. -/
theorem contains_iff {k : CharClass} {c : Char} :
    k.contains c = true ↔ ∃ r ∈ k.ranges, r.1 ≤ c.toNat ∧ c.toNat ≤ r.2 :=
  isWithin_iff k.ascending

def size (k : CharClass) : Nat := k.ranges.foldr (fun r count => r.2 + 1 - r.1 + count) 0

end CharClass

end BranchBound.Text
