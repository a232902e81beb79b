/-
Interval arithmetic encloses. Main statement (`arithmetic_encloses`): from intervals with their bounds in
order every operation makes such an interval; the result holds what the operation makes of numbers of the
operands; and it grows with the operands. A sum has its bounds from two sums of bounds that grow with their
terms (`lowerSum_mono`, `upperSum_mono`), since a sum lost to opposite infinities goes to the outer side.
A product has its bounds from the four products of bounds: with one factor held, a product is between those
with the bounds of the other factor, whichever sign the held one has.
-/
import BranchBound.Proofs.Binary.Monotone
import BranchBound.Proofs.Interval.Containment

namespace BranchBound

namespace Interval

variable {f : Format} {a a' b b' c : Interval f} {x x' y y' : Binary f}

/-! ## Hulls and intersections -/

theorem Valid.hull (ha : a.Valid) (hb : b.Valid) : (a.hull b).Valid := by
  obtain ⟨l, u, hl, hu, hle⟩ := Binary.le_iff.1 ha
  obtain ⟨l', u', hl', hu', hle'⟩ := Binary.le_iff.1 hb
  refine (Binary.le_iff_of_place (Binary.place_min hl hl') (Binary.place_max hu hu')).2 ?_
  omega

theorem valid_of_intersection (h : a.intersection b = some c) : c.Valid :=
  (ofBounds?_eq_some_iff.1 h).1

/-! ## Sums -/

/-- The lower bound of a sum from two lower bounds. -/
def lowerSum (x y : Binary f) : Binary f := if (x + y).isNaN then .negInfinity else x + y

/-- The upper bound of a sum from two upper bounds. -/
def upperSum (x y : Binary f) : Binary f := if (x + y).isNaN then .infinity else x + y

theorem lowerSum_eq (number : (x + y).isNaN = false) : lowerSum x y = x + y := by
  rw [lowerSum, number]
  rfl

theorem upperSum_eq (number : (x + y).isNaN = false) : upperSum x y = x + y := by
  rw [upperSum, number]
  rfl

theorem lowerSum_le_upperSum (x y : Binary f) : lowerSum x y ≤ upperSum x y := by
  cases number : (x + y).isNaN
  · rw [lowerSum_eq number, upperSum_eq number]
    exact Binary.le_refl number
  · rw [lowerSum, upperSum, number]
    exact Binary.le_infinity rfl

theorem lowerSum_mono (h : x ≤ x') (h' : y ≤ y') : lowerSum x y ≤ lowerSum x' y' := by
  cases number : (x + y).isNaN
  · rw [lowerSum_eq number]
    cases number' : (x' + y').isNaN
    · rw [lowerSum_eq number']
      exact Binary.add_le_add h h' number number'
    · -- where the larger sum is lost, one of the terms was minus infinity all along
      rw [lowerSum, number', if_pos rfl]
      rcases Binary.infinite_of_isNaN_add (Binary.isNaN_of_le h).2 (Binary.isNaN_of_le h').2 number'
        with ⟨-, rfl⟩ | ⟨rfl, -⟩
      · obtain rfl := Binary.eq_negInfinity_of_le h'
        rw [Binary.add_comm] at number ⊢
        rw [Binary.negInfinity_add number]
        exact Binary.le_refl rfl
      · obtain rfl := Binary.eq_negInfinity_of_le h
        rw [Binary.negInfinity_add number]
        exact Binary.le_refl rfl
  · rw [lowerSum, number, if_pos rfl]
    refine Binary.negInfinity_le ?_
    unfold lowerSum
    split
    · rfl
    · rename_i number'
      exact eq_false_of_ne_true number'

theorem upperSum_mono (h : x ≤ x') (h' : y ≤ y') : upperSum x y ≤ upperSum x' y' := by
  cases number' : (x' + y').isNaN
  · rw [upperSum_eq number']
    cases number : (x + y).isNaN
    · rw [upperSum_eq number]
      exact Binary.add_le_add h h' number number'
    · -- where the smaller sum is lost, one of the terms is infinity from there on
      rw [upperSum, number, if_pos rfl]
      rcases Binary.infinite_of_isNaN_add (Binary.isNaN_of_le h).1 (Binary.isNaN_of_le h').1 number
        with ⟨rfl, -⟩ | ⟨-, rfl⟩
      · obtain rfl := Binary.eq_infinity_of_le h
        rw [Binary.infinity_add number']
        exact Binary.le_refl rfl
      · obtain rfl := Binary.eq_infinity_of_le h'
        rw [Binary.add_comm] at number' ⊢
        rw [Binary.infinity_add number']
        exact Binary.le_refl rfl
  · rw [upperSum.eq_def x', number', if_pos rfl]
    refine Binary.le_infinity ?_
    unfold upperSum
    split
    · rfl
    · rename_i number
      exact eq_false_of_ne_true number

theorem Valid.add (ha : a.Valid) (hb : b.Valid) : (a + b).Valid :=
  Binary.le_trans (lowerSum_mono ha hb) (lowerSum_le_upperSum a.ub b.ub)

theorem contains_add (hx : a.contains x = true) (hy : b.contains y = true)
    (number : (x + y).isNaN = false) : (a + b).contains (x + y) = true := by
  obtain ⟨hxl, hxu⟩ := contains_iff.1 hx
  obtain ⟨hyl, hyu⟩ := contains_iff.1 hy
  have lower := lowerSum_mono hxl hyl
  have upper := upperSum_mono hxu hyu
  rw [lowerSum_eq number] at lower
  rw [upperSum_eq number] at upper
  exact contains_iff.2 ⟨lower, upper⟩

theorem containsInterval_add (h : a'.containsInterval a = true) (h' : b'.containsInterval b = true) :
    (a' + b').containsInterval (a + b) = true := by
  obtain ⟨hl, hu⟩ := containsInterval_iff.1 h
  obtain ⟨hl', hu'⟩ := containsInterval_iff.1 h'
  exact containsInterval_iff.2 ⟨lowerSum_mono hl hl', upperSum_mono hu hu'⟩

/-! ## Negations and differences -/

theorem Valid.neg (ha : a.Valid) : (-a).Valid := Binary.neg_le_neg ha

theorem contains_neg (hx : a.contains x = true) : (-a).contains (-x) = true := by
  obtain ⟨hl, hu⟩ := contains_iff.1 hx
  exact contains_iff.2 ⟨Binary.neg_le_neg hu, Binary.neg_le_neg hl⟩

theorem containsInterval_neg (h : a'.containsInterval a = true) :
    (-a').containsInterval (-a) = true := by
  obtain ⟨hl, hu⟩ := containsInterval_iff.1 h
  exact containsInterval_iff.2 ⟨Binary.neg_le_neg hu, Binary.neg_le_neg hl⟩

theorem Valid.sub (ha : a.Valid) (hb : b.Valid) : (a - b).Valid := ha.add hb.neg

theorem contains_sub (hx : a.contains x = true) (hy : b.contains y = true)
    (number : (x - y).isNaN = false) : (a - b).contains (x - y) = true :=
  contains_add hx (contains_neg hy) number

theorem containsInterval_sub (h : a'.containsInterval a = true) (h' : b'.containsInterval b = true) :
    (a' - b').containsInterval (a - b) = true :=
  containsInterval_add h (containsInterval_neg h')

/-! ## Products -/

section Products

variable {i j : Int}

theorem place_boundProduct (hx : x.place = some i) (hy : y.place = some j) :
    (boundProduct x y).place = some (f.placeProduct i j) := by
  have zeroX := Binary.isZero_iff hx
  have zeroY := Binary.isZero_iff hy
  unfold boundProduct
  split
  · rename_i zero
    rw [Bool.or_eq_true, zeroX, zeroY] at zero
    rcases zero with rfl | rfl
    · rw [f.placeProduct_comm, f.placeProduct_zero]
      rfl
    · rw [f.placeProduct_zero]
      rfl
  · rename_i nonzero
    rw [Bool.or_eq_true, zeroX, zeroY] at nonzero
    refine Binary.place_mul hx hy (eq_false_of_ne_true fun lost => ?_)
    have := (Binary.isNaN_mul_iff hx hy).1 lost
    omega

/-- The product of two numbers, where zero times infinity is zero, is in the place of the product of
bounds. -/
theorem place_product (hx : x.place = some i) (hy : y.place = some j) :
    (if (x * y).isNaN then .zero else x * y).place = some (f.placeProduct i j) := by
  split
  · rename_i lost
    rcases (Binary.isNaN_mul_iff hx hy).1 lost with ⟨rfl, -⟩ | ⟨-, rfl⟩
    · rw [f.placeProduct_comm, f.placeProduct_zero]
      rfl
    · rw [f.placeProduct_zero]
      rfl
  · rename_i number
    exact Binary.place_mul hx hy (eq_false_of_ne_true number)

theorem foldl_min_mem (first : Binary f) (others : List (Binary f)) :
    others.foldl Binary.min first ∈ first :: others := by
  induction others generalizing first with
  | nil => exact List.mem_singleton_self first
  | cons next others ih =>
    rcases List.mem_cons.1 (ih (first.min next)) with h | h
    · rw [List.foldl_cons, h]
      rcases Binary.min_eq_or first next with e | e <;> simp [e]
    · exact List.mem_cons_of_mem _ (List.mem_cons_of_mem _ h)

theorem foldl_max_mem (first : Binary f) (others : List (Binary f)) :
    others.foldl Binary.max first ∈ first :: others := by
  induction others generalizing first with
  | nil => exact List.mem_singleton_self first
  | cons next others ih =>
    rcases List.mem_cons.1 (ih (first.max next)) with h | h
    · rw [List.foldl_cons, h]
      rcases Binary.max_eq_or first next with e | e <;> simp [e]
    · exact List.mem_cons_of_mem _ (List.mem_cons_of_mem _ h)

/-- The four products of bounds. -/
def corners (a b : Interval f) : List (Binary f) :=
  [boundProduct a.lb b.lb, boundProduct a.lb b.ub, boundProduct a.ub b.lb, boundProduct a.ub b.ub]

theorem lb_mul_mem_corners (a b : Interval f) : (a * b).lb ∈ corners a b := foldl_min_mem _ _

theorem ub_mul_mem_corners (a b : Interval f) : (a * b).ub ∈ corners a b := foldl_max_mem _ _

/-- The bounds of two factors in order, by their places. -/
structure Places (a b : Interval f) (l u l' u' : Int) : Prop where
  lb : a.lb.place = some l
  ub : a.ub.place = some u
  lb' : b.lb.place = some l'
  ub' : b.ub.place = some u'

theorem Places.swap {l u l' u' : Int} (p : Places a b l u l' u') : Places b a l' u' l u :=
  ⟨p.lb', p.ub', p.lb, p.ub⟩

theorem Places.lb_mul {l u l' u' : Int} (p : Places a b l u l' u') :
    (a * b).lb.place = some (min (min (min (f.placeProduct l l') (f.placeProduct l u'))
      (f.placeProduct u l')) (f.placeProduct u u')) :=
  Binary.place_min (Binary.place_min (Binary.place_min (place_boundProduct p.lb p.lb')
    (place_boundProduct p.lb p.ub')) (place_boundProduct p.ub p.lb')) (place_boundProduct p.ub p.ub')

theorem Places.ub_mul {l u l' u' : Int} (p : Places a b l u l' u') :
    (a * b).ub.place = some (max (max (max (f.placeProduct l l') (f.placeProduct l u'))
      (f.placeProduct u l')) (f.placeProduct u u')) :=
  Binary.place_max (Binary.place_max (Binary.place_max (place_boundProduct p.lb p.lb')
    (place_boundProduct p.lb p.ub')) (place_boundProduct p.ub p.lb')) (place_boundProduct p.ub p.ub')

/-- A number in the place of a product of numbers of both factors is in their product. -/
theorem contains_of_place_product {z : Binary f} (hx : a.contains x = true)
    (hy : b.contains y = true) (hi : x.place = some i) (hj : y.place = some j)
    (hz : z.place = some (f.placeProduct i j)) : (a * b).contains z = true := by
  obtain ⟨hxl, hxu⟩ := contains_iff.1 hx
  obtain ⟨hyl, hyu⟩ := contains_iff.1 hy
  obtain ⟨l, _, hl, -, -⟩ := Binary.le_iff.1 hxl
  obtain ⟨_, u, -, hu, -⟩ := Binary.le_iff.1 hxu
  obtain ⟨l', _, hl', -, -⟩ := Binary.le_iff.1 hyl
  obtain ⟨_, u', -, hu', -⟩ := Binary.le_iff.1 hyu
  rw [Binary.le_iff_of_place hl hi] at hxl
  rw [Binary.le_iff_of_place hi hu] at hxu
  rw [Binary.le_iff_of_place hl' hj] at hyl
  rw [Binary.le_iff_of_place hj hu'] at hyu
  -- first with the second factor held, then with a bound of the first one held
  have outer := f.placeProduct_between j hxl hxu (Binary.natAbs_place_le hl) (Binary.natAbs_place_le hu)
  have inner (k : Int) := f.placeProduct_between k hyl hyu (Binary.natAbs_place_le hl')
    (Binary.natAbs_place_le hu')
  have lower := inner l
  have upper := inner u
  rw [f.placeProduct_comm j, f.placeProduct_comm l', f.placeProduct_comm u'] at lower upper
  have p : Places a b l u l' u' := ⟨hl, hu, hl', hu'⟩
  rw [contains_iff, Binary.le_iff_of_place p.lb_mul hz, Binary.le_iff_of_place hz p.ub_mul]
  omega

theorem contains_boundProduct (hx : a.contains x = true) (hy : b.contains y = true) :
    (a * b).contains (boundProduct x y) = true := by
  obtain ⟨i, hi⟩ := Binary.exists_place (isNaN_of_contains hx)
  obtain ⟨j, hj⟩ := Binary.exists_place (isNaN_of_contains hy)
  exact contains_of_place_product hx hy hi hj (place_boundProduct hi hj)

theorem contains_product (hx : a.contains x = true) (hy : b.contains y = true) :
    (a * b).contains (if (x * y).isNaN then .zero else x * y) = true := by
  obtain ⟨i, hi⟩ := Binary.exists_place (isNaN_of_contains hx)
  obtain ⟨j, hj⟩ := Binary.exists_place (isNaN_of_contains hy)
  exact contains_of_place_product hx hy hi hj (place_product hi hj)

theorem Valid.mul (ha : a.Valid) (hb : b.Valid) : (a * b).Valid :=
  valid_of_contains (contains_boundProduct ha.contains_lb hb.contains_lb)

/-- The four products of bounds of two intervals are in the product of any two around them. -/
theorem contains_corner {z : Binary f} (ha : a.Valid) (hb : b.Valid)
    (h : a'.containsInterval a = true) (h' : b'.containsInterval b = true) (hz : z ∈ corners a b) :
    (a' * b').contains z = true := by
  have hal := contains_of_containsInterval h ha.contains_lb
  have hau := contains_of_containsInterval h ha.contains_ub
  have hbl := contains_of_containsInterval h' hb.contains_lb
  have hbu := contains_of_containsInterval h' hb.contains_ub
  simp only [corners, List.mem_cons, List.not_mem_nil, or_false] at hz
  rcases hz with rfl | rfl | rfl | rfl
  · exact contains_boundProduct hal hbl
  · exact contains_boundProduct hal hbu
  · exact contains_boundProduct hau hbl
  · exact contains_boundProduct hau hbu

theorem containsInterval_mul (ha : a.Valid) (hb : b.Valid) (h : a'.containsInterval a = true)
    (h' : b'.containsInterval b = true) : (a' * b').containsInterval (a * b) = true :=
  containsInterval_of_contains (contains_corner ha hb h h' (lb_mul_mem_corners a b))
    (contains_corner ha hb h h' (ub_mul_mem_corners a b))

theorem Valid.exists_places (ha : a.Valid) (hb : b.Valid) : ∃ l u l' u', Places a b l u l' u' := by
  obtain ⟨l, u, hl, hu, -⟩ := Binary.le_iff.1 ha
  obtain ⟨l', u', hl', hu', -⟩ := Binary.le_iff.1 hb
  exact ⟨l, u, l', u', hl, hu, hl', hu'⟩

theorem mul_comm_equals (ha : a.Valid) (hb : b.Valid) : (a * b).equals (b * a) = true := by
  obtain ⟨l, u, l', u', p⟩ := ha.exists_places hb
  rw [equals, Bool.and_eq_true, Binary.equals_iff_of_place p.lb_mul p.swap.lb_mul,
    Binary.equals_iff_of_place p.ub_mul p.swap.ub_mul, f.placeProduct_comm l' l,
    f.placeProduct_comm l' u, f.placeProduct_comm u' l, f.placeProduct_comm u' u]
  omega

/-- Scaling by a number succeeds, and is to multiply by the interval that holds the number alone. -/
theorem scale_spec {factor : Binary f} (ha : a.Valid) (hfactor : factor.isNaN = false) :
    ∃ scaled alone, a.scale factor = .ok scaled ∧ point factor = .ok alone ∧ scaled.Valid ∧
      scaled.equals (a * alone) = true := by
  obtain ⟨l, u, hl, hu, -⟩ := Binary.le_iff.1 ha
  obtain ⟨k, hk⟩ := Binary.exists_place hfactor
  have lower := Binary.place_min (place_boundProduct hl hk) (place_boundProduct hu hk)
  have upper := Binary.place_max (place_boundProduct hl hk) (place_boundProduct hu hk)
  have ordered := (Binary.le_iff_of_place lower upper).2 (by omega)
  have p : Places a ⟨factor, factor⟩ l u k k := ⟨hl, hu, hk, hk⟩
  refine ⟨⟨(boundProduct a.lb factor).min (boundProduct a.ub factor),
      (boundProduct a.lb factor).max (boundProduct a.ub factor)⟩, ⟨factor, factor⟩, ?_,
    if_pos (Binary.le_refl hfactor), ordered, ?_⟩
  · rw [scale, hfactor]
    exact if_pos ordered
  · rw [equals, Bool.and_eq_true, Binary.equals_iff_of_place lower p.lb_mul,
      Binary.equals_iff_of_place upper p.ub_mul]
    omega

end Products

/-! ## All operations -/

/-- From intervals with their bounds in order every operation makes such an interval. Scaling by a number
succeeds and is to multiply by the interval of that number alone, and factors may be swapped. The result
holds the sums, differences, negations and products of all numbers of the operands, as far as these are
numbers, and zero for the product of zero and infinity. With operands inside others the result is inside
that of the others. -/
theorem arithmetic_encloses (ha : a.Valid) (hb : b.Valid) :
    ((a + b).Valid ∧ (a - b).Valid ∧ (-a).Valid ∧ (a * b).Valid ∧ (a.hull b).Valid ∧
      ∀ c, a.intersection b = some c → c.Valid) ∧
    (∀ factor : Binary f, factor.isNaN = false → ∃ scaled alone, a.scale factor = .ok scaled ∧
      point factor = .ok alone ∧ scaled.Valid ∧ scaled.equals (a * alone) = true) ∧
    (a * b).equals (b * a) = true ∧
    (∀ x y, a.contains x = true → b.contains y = true →
      ((x + y).isNaN = false → (a + b).contains (x + y) = true) ∧
      ((x - y).isNaN = false → (a - b).contains (x - y) = true) ∧
      (-a).contains (-x) = true ∧
      (a * b).contains (if (x * y).isNaN then .zero else x * y) = true) ∧
    ∀ a' b' : Interval f, a'.containsInterval a = true → b'.containsInterval b = true →
      (a' + b').containsInterval (a + b) = true ∧ (a' - b').containsInterval (a - b) = true ∧
      (a' * b').containsInterval (a * b) = true := by
  refine ⟨⟨ha.add hb, ha.sub hb, ha.neg, ha.mul hb, ha.hull hb, fun _ => valid_of_intersection⟩,
    fun _ => scale_spec ha, mul_comm_equals ha hb, ?_, ?_⟩
  · intro x y hx hy
    exact ⟨contains_add hx hy, contains_sub hx hy, contains_neg hx, contains_product hx hy⟩
  · intro a' b' h h'
    exact ⟨containsInterval_add h h', containsInterval_sub h h', containsInterval_mul ha hb h h'⟩

/-- The half-lines below and above zero: their product holds zero for the infinite bound times zero, which is
no number, and the sum is inside the interval without bounds. -/
theorem arithmetic_encloses_unbounded :
    let a : Interval .binary64 := ⟨.negInfinity, .zero⟩
    let b : Interval .binary64 := ⟨.zero, .infinity⟩
    let x : Binary .binary64 := .negInfinity
    let y : Binary .binary64 := .zero
    a.Valid ∧ b.Valid ∧ (a * b).Valid ∧ a.contains x = true ∧ b.contains y = true ∧
      (x * y).isNaN = true ∧ (a * b).contains .zero = true ∧
      (entire : Interval .binary64).containsInterval a = true ∧
      (entire + entire : Interval .binary64).containsInterval (a + a) = true := by
  intro a b x y
  have ha : a.Valid := by decide +kernel
  have hb : b.Valid := by decide +kernel
  have hx : a.contains x = true := by decide +kernel
  have hy : b.contains y = true := by decide +kernel
  have lost : (x * y).isNaN = true := by decide +kernel
  have inside : (entire : Interval .binary64).containsInterval a = true := by decide +kernel
  obtain ⟨⟨-, -, -, valid, -⟩, -, -, holds, -⟩ := arithmetic_encloses ha hb
  obtain ⟨-, -, -, product⟩ := holds x y hx hy
  obtain ⟨-, -, -, -, within⟩ := arithmetic_encloses ha ha
  rw [if_pos lost] at product
  exact ⟨ha, hb, valid, hx, hy, lost, product, inside, (within entire entire inside inside).1⟩

end Interval

end BranchBound
