/-
Intersections and hulls. Intervals with their bounds in order are known by the numbers that they contain
(`containsInterval_iff_forall`, `equals_iff_forall`), and numbers are told apart only as far as they compare.
The intersection contains the numbers that both intervals contain (`holds_intersection_iff`), and an
interval contains the hull if it contains both (`containsInterval_hull_iff`). Main statement
(`intersection_hull_laws`): these are the greatest interval in both, if there is any, and the least around
both; either of them with one interval inside the other is one of the two, and so both operations commute,
associate and leave an interval by itself as it is.
-/
import BranchBound.Proofs.Interval.Arithmetic

namespace BranchBound.Interval

variable {f : Format} {a b c : Interval f} {o o' : Option (Interval f)} {x : Binary f}

/-- A number is in the interval that there may be. -/
def Holds (o : Option (Interval f)) (x : Binary f) : Prop := ∃ m ∈ o, m.contains x = true

/-- There is no interval on either side, or there are intervals with the same bounds. -/
def Agree : Option (Interval f) → Option (Interval f) → Prop :=
  Option.Rel fun a b => a.equals b = true

@[simp]
theorem not_holds_none : ¬ Holds (none : Option (Interval f)) x := by simp [Holds]

@[simp]
theorem holds_some : Holds (some a) x ↔ a.contains x = true := by simp [Holds]

/-! ## Intervals by what they contain -/

theorem Valid.containsInterval_self (ha : a.Valid) : a.containsInterval a = true :=
  containsInterval_of_contains ha.contains_lb ha.contains_ub

theorem containsInterval_iff_forall (hb : b.Valid) :
    a.containsInterval b = true ↔ ∀ x, b.contains x = true → a.contains x = true := by
  constructor
  · intro h x hx
    exact contains_of_containsInterval h hx
  · intro h
    exact containsInterval_of_contains (h _ hb.contains_lb) (h _ hb.contains_ub)

theorem equals_iff_containsInterval :
    a.equals b = true ↔ a.containsInterval b = true ∧ b.containsInterval a = true := by
  simp only [equals, Bool.and_eq_true, Binary.equals_iff_le, containsInterval_iff]
  rw [and_comm (a := a.ub ≤ b.ub), and_and_and_comm]

theorem equals_iff_forall (ha : a.Valid) (hb : b.Valid) :
    a.equals b = true ↔ ∀ x, a.contains x = true ↔ b.contains x = true := by
  rw [equals_iff_containsInterval, containsInterval_iff_forall hb, containsInterval_iff_forall ha]
  exact ⟨fun ⟨h, h'⟩ x => ⟨h' x, h x⟩, fun h => ⟨fun x => (h x).2, fun x => (h x).1⟩⟩

/-- Intervals that the same intervals contain are equal. -/
theorem equals_of_forall_containsInterval (ha : a.Valid) (hb : b.Valid)
    (h : ∀ c : Interval f, c.containsInterval a = true ↔ c.containsInterval b = true) :
    a.equals b = true :=
  equals_iff_containsInterval.2 ⟨(h a).1 ha.containsInterval_self, (h b).2 hb.containsInterval_self⟩

/-- Results of intersections agree if the same numbers are in them. -/
theorem agree_iff_forall (ho : ∀ m ∈ o, m.Valid) (ho' : ∀ m ∈ o', m.Valid) :
    Agree o o' ↔ ∀ x, Holds o x ↔ Holds o' x := by
  cases o with
  | none =>
    cases o' with
    | none => exact iff_of_true .none fun _ => .rfl
    | some b => exact iff_of_false nofun fun h => by simpa [(ho' b rfl).contains_lb] using h b.lb
  | some a =>
    cases o' with
    | none => exact iff_of_false nofun fun h => by simpa [(ho a rfl).contains_lb] using h a.lb
    | some b =>
      have hagree : Agree (some a) (some b) ↔ a.equals b = true := by simp [Agree]
      simp [hagree, equals_iff_forall (ho a rfl) (ho' b rfl)]

/-! ## Intersections -/

theorem intersection_eq_some_iff {m : Interval f} :
    a.intersection b = some m ↔ m.Valid ∧ m = ⟨a.lb.max b.lb, a.ub.min b.ub⟩ :=
  ofBounds?_eq_some_iff

/-- The numbers in an intersection are those in both intervals. -/
theorem holds_intersection_iff (ha : a.Valid) (hb : b.Valid) :
    Holds (a.intersection b) x ↔ a.contains x = true ∧ b.contains x = true := by
  obtain ⟨halb, haub⟩ := Binary.isNaN_of_le ha
  obtain ⟨hblb, hbub⟩ := Binary.isNaN_of_le hb
  have hcontains : (⟨a.lb.max b.lb, a.ub.min b.ub⟩ : Interval f).contains x = true ↔
      a.contains x = true ∧ b.contains x = true := by
    simp only [contains_iff, Binary.max_le_iff halb hblb, Binary.le_min_iff haub hbub]
    exact and_and_and_comm
  constructor
  · rintro ⟨m, hm, hx⟩
    obtain ⟨-, rfl⟩ := intersection_eq_some_iff.1 hm
    exact hcontains.1 hx
  · intro hx
    exact ⟨_, intersection_eq_some_iff.2 ⟨valid_of_contains (hcontains.2 hx), rfl⟩, hcontains.2 hx⟩

/-- The numbers in one more intersection, whichever side it is taken on. -/
theorem holds_bind_iff {g : Interval f → Option (Interval f)} {p : Prop} (ho : ∀ m ∈ o, m.Valid)
    (hg : ∀ m : Interval f, m.Valid → (Holds (g m) x ↔ m.contains x = true ∧ p)) :
    Holds (o.bind g) x ↔ Holds o x ∧ p := by
  cases o with
  | none => simp
  | some m => simpa using hg m (ho m rfl)

theorem agree_intersection_self (ha : a.Valid) : Agree (a.intersection a) (some a) := by
  have hsome : ∀ m ∈ some a, m.Valid := by simpa using ha
  rw [agree_iff_forall (fun _ => valid_of_intersection) hsome]
  intro x
  rw [holds_intersection_iff ha ha, holds_some, and_self_iff]

theorem agree_intersection_comm (ha : a.Valid) (hb : b.Valid) :
    Agree (a.intersection b) (b.intersection a) := by
  rw [agree_iff_forall (fun _ => valid_of_intersection) (fun _ => valid_of_intersection)]
  intro x
  rw [holds_intersection_iff ha hb, holds_intersection_iff hb ha, and_comm]

theorem agree_intersection_assoc (ha : a.Valid) (hb : b.Valid) (hc : c.Valid) :
    Agree ((a.intersection b).bind (·.intersection c))
      ((b.intersection c).bind (a.intersection ·)) := by
  have hvalid (m : Interval f) (hm : m ∈ (a.intersection b).bind (·.intersection c)) : m.Valid := by
    obtain ⟨_, -, hm⟩ := Option.mem_bind_iff.1 hm
    exact valid_of_intersection hm
  have hvalid' (m : Interval f) (hm : m ∈ (b.intersection c).bind (a.intersection ·)) : m.Valid := by
    obtain ⟨_, -, hm⟩ := Option.mem_bind_iff.1 hm
    exact valid_of_intersection hm
  rw [agree_iff_forall hvalid hvalid']
  intro x
  rw [holds_bind_iff (fun _ => valid_of_intersection) fun m hm => holds_intersection_iff hm hc,
    holds_bind_iff (fun _ => valid_of_intersection)
      fun m hm => (holds_intersection_iff ha hm).trans and_comm,
    holds_intersection_iff ha hb, holds_intersection_iff hb hc]
  rw [and_comm (b := a.contains x = true), and_assoc]

/-- An interval is inside another one exactly if it is the intersection of both. -/
theorem agree_intersection_right_iff (ha : a.Valid) (hb : b.Valid) :
    Agree (a.intersection b) (some b) ↔ a.containsInterval b = true := by
  have hsome : ∀ m ∈ some b, m.Valid := by simpa using hb
  rw [agree_iff_forall (fun _ => valid_of_intersection) hsome, containsInterval_iff_forall hb]
  simp [holds_intersection_iff ha hb]

/-! ## Hulls -/

/-- An interval contains the hull of two others exactly if it contains both. -/
theorem containsInterval_hull_iff (ha : a.Valid) (hb : b.Valid) :
    c.containsInterval (a.hull b) = true ↔ c.containsInterval a = true ∧ c.containsInterval b = true := by
  obtain ⟨halb, haub⟩ := Binary.isNaN_of_le ha
  obtain ⟨hblb, hbub⟩ := Binary.isNaN_of_le hb
  simp only [containsInterval_iff, hull, Binary.le_min_iff halb hblb, Binary.max_le_iff haub hbub]
  exact and_and_and_comm

theorem hull_contains (ha : a.Valid) (hb : b.Valid) :
    (a.hull b).containsInterval a = true ∧ (a.hull b).containsInterval b = true :=
  (containsInterval_hull_iff ha hb).1 (ha.hull hb).containsInterval_self

theorem hull_self_equals (ha : a.Valid) : (a.hull a).equals a = true := by
  refine equals_of_forall_containsInterval (ha.hull ha) ha fun c => ?_
  rw [containsInterval_hull_iff ha ha, and_self_iff]

theorem hull_comm_equals (ha : a.Valid) (hb : b.Valid) : (a.hull b).equals (b.hull a) = true := by
  refine equals_of_forall_containsInterval (ha.hull hb) (hb.hull ha) fun c => ?_
  rw [containsInterval_hull_iff ha hb, containsInterval_hull_iff hb ha, and_comm]

theorem hull_assoc_equals (ha : a.Valid) (hb : b.Valid) (hc : c.Valid) :
    ((a.hull b).hull c).equals (a.hull (b.hull c)) = true := by
  refine equals_of_forall_containsInterval ((ha.hull hb).hull hc) (ha.hull (hb.hull hc)) fun d => ?_
  rw [containsInterval_hull_iff (ha.hull hb) hc, containsInterval_hull_iff ha hb,
    containsInterval_hull_iff ha (hb.hull hc), containsInterval_hull_iff hb hc, and_assoc]

/-- An interval is inside another one exactly if the other one is the hull of both. -/
theorem hull_equals_left_iff (ha : a.Valid) (hb : b.Valid) :
    (a.hull b).equals a = true ↔ a.containsInterval b = true := by
  rw [equals_iff_containsInterval, containsInterval_hull_iff ha hb]
  simp [hull_contains ha hb, ha.containsInterval_self]

/-! ## Meet and join -/

/-- The result is the interval of the numbers in both intervals, if there are any. -/
structure IsMeet (a b : Interval f) (o : Option (Interval f)) : Prop where
  none_iff : o = none ↔ ¬ ∃ x, a.contains x = true ∧ b.contains x = true
  contains_iff : ∀ m, o = some m →
    ∀ x, m.contains x = true ↔ a.contains x = true ∧ b.contains x = true

/-- The interval contains both intervals, and is inside every interval that does. -/
structure IsJoin (a b m : Interval f) : Prop where
  left : m.containsInterval a = true
  right : m.containsInterval b = true
  least : ∀ c : Interval f, c.Valid →
    (c.containsInterval m = true ↔ c.containsInterval a = true ∧ c.containsInterval b = true)

theorem isMeet_intersection (ha : a.Valid) (hb : b.Valid) : IsMeet a b (a.intersection b) := by
  have hholds (x : Binary f) := holds_intersection_iff (x := x) ha hb
  constructor
  · constructor
    · rintro h ⟨x, hx⟩
      simpa [h] using (hholds x).2 hx
    · intro h
      cases hm : a.intersection b with
      | none => rfl
      | some m =>
        have hlb := (valid_of_intersection hm).contains_lb
        exact absurd ⟨m.lb, (hholds m.lb).1 ⟨m, hm, hlb⟩⟩ h
  · intro m hm x
    rw [← hholds, hm, holds_some]

theorem isJoin_hull (ha : a.Valid) (hb : b.Valid) : IsJoin a b (a.hull b) where
  left := (hull_contains ha hb).1
  right := (hull_contains ha hb).2
  least _ _ := containsInterval_hull_iff ha hb

/-- Intersection and hull are meet and join of the order in which an interval is above those that it
contains. Containing all numbers of an interval, intersecting in that interval and being the hull with it
are the same; and both operations commute, associate and are idempotent, where no intersection with
anything is no intersection. -/
theorem intersection_hull_laws (ha : a.Valid) (hb : b.Valid) (hc : c.Valid) :
    IsMeet a b (a.intersection b) ∧ IsJoin a b (a.hull b) ∧
    ((a.containsInterval b = true ↔ ∀ x, b.contains x = true → a.contains x = true) ∧
      (a.containsInterval b = true ↔ Agree (a.intersection b) (some b)) ∧
      (a.containsInterval b = true ↔ (a.hull b).equals a = true)) ∧
    (Agree (a.intersection b) (b.intersection a) ∧
      Agree ((a.intersection b).bind (·.intersection c)) ((b.intersection c).bind (a.intersection ·)) ∧
      Agree (a.intersection a) (some a)) ∧
    (a.hull b).equals (b.hull a) = true ∧ ((a.hull b).hull c).equals (a.hull (b.hull c)) = true ∧
      (a.hull a).equals a = true := by
  refine ⟨isMeet_intersection ha hb, isJoin_hull ha hb, ⟨containsInterval_iff_forall hb, ?_, ?_⟩,
    ⟨agree_intersection_comm ha hb, agree_intersection_assoc ha hb hc, agree_intersection_self ha⟩,
    hull_comm_equals ha hb, hull_assoc_equals ha hb hc, hull_self_equals ha⟩
  · exact (agree_intersection_right_iff ha hb).symm
  · exact (hull_equals_left_iff ha hb).symm

/-- All numbers up to the negative zero and all from the positive zero on share zero, and none with what
holds infinity alone but that itself. -/
theorem intersection_hull_laws_touching :
    let a : Interval .binary64 := ⟨.negInfinity, .signedZero true⟩
    let b : Interval .binary64 := ⟨.zero, .infinity⟩
    let c : Interval .binary64 := ⟨.infinity, .infinity⟩
    a.Valid ∧ b.Valid ∧ c.Valid ∧ a.intersection b = some ⟨.zero, .signedZero true⟩ ∧
      IsMeet a b (a.intersection b) ∧ IsJoin a b (a.hull b) ∧ a.intersection c = none ∧
      Agree ((a.intersection b).bind (·.intersection c)) ((b.intersection c).bind (a.intersection ·)) ∧
      Agree (b.intersection c) (some c) := by
  intro a b c
  have ha : a.Valid := by decide +kernel
  have hb : b.Valid := by decide +kernel
  have hc : c.Valid := by decide +kernel
  obtain ⟨meet, join, -, ⟨-, assoc, -⟩, -⟩ := intersection_hull_laws ha hb hc
  obtain ⟨-, -, ⟨-, within, -⟩, -⟩ := intersection_hull_laws hb hc ha
  exact ⟨ha, hb, hc, by decide +kernel, meet, join, by decide +kernel, assoc,
    within.1 (by decide +kernel)⟩

end BranchBound.Interval
