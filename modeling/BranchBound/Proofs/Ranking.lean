/-
Costs under the best known bound. Tightness is the distance from the estimate up to the bound in widths of
the estimate, and a ranking by it gives the cost of that rate (`ofRate`), also where the rate is weighed with
a number above zero (`KeepsOrder`). The rate grows with the bound, so that a lower bound never makes such a
cell come earlier, unless the width is the negative zero, by which every rate has the wrong sign
(`rate_falls_iff`). Main statement (`costs_follow_bound`): this, and that the cost depends on the bound exactly
under the rankings that say so.
-/
import BranchBound.Ranking
import BranchBound.Proofs.Binary.Quotient
import BranchBound.Proofs.Interval.Midpoint

namespace BranchBound

variable {f : Format}

namespace Binary

variable {a b : Binary f}

theorem isNaN_neg (a : Binary f) : (-a).isNaN = a.isNaN := by
  cases a <;> rfl

theorem isInfinite_signedInfinity (negative : Bool) :
    (signedInfinity negative : Binary f).isInfinite = true := by simp [signedInfinity, isInfinite]

theorem place_sub_self (ha : a.isFinite = true) : (a - a).place = some 0 := by
  have hsum := place_add ha ((isFinite_neg a).trans ha)
  rwa [exactUnits_neg, Int.add_right_neg, f.signedCode_zero] at hsum

/-- Zero is not infinite. -/
theorem equals_of_isZero_of_isInfinite (ha : a.isZero = true) (hb : b.isInfinite = true) :
    a.equals b = false ∧ b.equals a = false := by
  have htop := f.two_le_code
  cases a with
  | nan => cases ha
  | number n c hc =>
    cases b with
    | nan => cases hb
    | number m d hd =>
      have hx : (number n c hc).place = some (if n then -(c : Int) else c) := rfl
      have hy : (number m d hd).place = some (if m then -(d : Int) else d) := rfl
      rw [isZero_iff hx] at ha
      rw [isInfinite_iff hy] at hb
      rw [← Bool.not_eq_true, ← Bool.not_eq_true, equals_iff_of_place hx hy, equals_iff_of_place hy hx]
      omega

theorem one_finite : (one : Binary f).isFinite = true ∧ (zero : Binary f) < one := by
  have hlt := f.twoCode_lt
  have hunits := f.units_one_two.1
  have hp := Nat.two_pow_pos f.unitScale
  have hle : f.oneCode ≤ f.twoCode := Nat.le_add_right ..
  have hpos : f.oneCode ≠ 0 := by
    intro h
    rw [h, f.units_zero] at hunits
    omega
  refine ⟨by simp [one, isFinite]; omega, ?_⟩
  rw [lt_iff_of_place place_zero (show (one : Binary f).place = some (f.oneCode : Int) from rfl)]
  omega

end Binary

namespace Ranking

variable {cell : Cell f} {bound bound' x y : Binary f} {weigh : Binary f → Binary f}

/-! ## Costs of rates -/

theorem cost_of_number {r : Ranking} (h : (r.formula cell bound).isNaN = false) :
    r.cost cell bound = r.formula cell bound :=
  if_neg (by rw [h]; exact Bool.false_ne_true)

/-- The cost of a cell of such a rate: the larger the rate the earlier, and last without one. -/
def ofRate (rate : Binary f) : Binary f := if (-rate).isNaN then .infinity else -rate

theorem cost_tightness : tightness.cost cell bound = ofRate (tightnessOf cell bound) := rfl

theorem cost_weightedTightness :
    weightedTightness.cost cell bound = ofRate (cell.weight * tightnessOf cell bound) := rfl

@[simp]
theorem ofRate_nan : ofRate (.nan : Binary f) = .infinity := rfl

@[simp]
theorem ofRate_signedInfinity (negative : Bool) :
    ofRate (.signedInfinity negative : Binary f) = .signedInfinity !negative := rfl

theorem ofRate_of_number (h : x.isNaN = false) : ofRate x = -x :=
  if_neg (by rw [Binary.isNaN_neg, h]; exact Bool.false_ne_true)

theorem ofRate_le (h : x ≤ y) : ofRate y ≤ ofRate x := by
  obtain ⟨hx, hy⟩ := Binary.isNaN_of_le h
  rw [ofRate_of_number hx, ofRate_of_number hy]
  exact Binary.neg_le_neg h

theorem isZero_ofRate (h : x.isZero = true) : (ofRate x).isZero = true := by
  obtain ⟨negative, rfl⟩ := Binary.isZero_eq_true_iff.1 h
  rfl

/-- Weighing that leaves numbers in order, and the infinities and what is no number as they are. -/
structure KeepsOrder (weigh : Binary f → Binary f) : Prop where
  le : ∀ {x y}, x ≤ y → weigh x ≤ weigh y
  signedInfinity : ∀ negative, weigh (.signedInfinity negative) = .signedInfinity negative
  nan : weigh .nan = .nan

theorem keepsOrder_id : KeepsOrder (id : Binary f → Binary f) where
  le h := h
  signedInfinity _ := rfl
  nan := rfl

theorem keepsOrder_mul {weight : Binary f} (pos : .zero < weight) (finite : weight.isFinite = true) :
    KeepsOrder (weight * ·) where
  le {x y} h := by
    obtain ⟨hx, hy⟩ := Binary.isNaN_of_le h
    obtain ⟨zero, w, hzero, hw, hlt⟩ := Binary.lt_iff.1 pos
    cases hzero
    have hnumber (z : Binary f) (hz : z.isNaN = false) : (weight * z).isNaN = false := by
      obtain ⟨p, hp⟩ := Binary.exists_place hz
      have hfinite : weight.isInfinite = false := (Binary.isFinite_eq_true_iff.1 finite).2
      rw [← Bool.not_eq_true, Binary.isInfinite_iff hw] at hfinite
      rw [← Bool.not_eq_true, Binary.isNaN_mul_iff hw hp]
      omega
    obtain ⟨p, q, hp, hq, hle⟩ := Binary.le_iff.1 h
    rw [Binary.le_iff_of_place (Binary.place_mul hw hp (hnumber x hx))
      (Binary.place_mul hw hq (hnumber y hy)), f.placeProduct_comm w, f.placeProduct_comm w]
    exact f.placeProduct_le_of_nonneg hle (Int.le_of_lt hlt) (Binary.natAbs_place_le hp)
      (Binary.natAbs_place_le hq)
  signedInfinity negative := by
    obtain ⟨code, bounded, rfl, hzero, -⟩ := Binary.exists_code_of_pos pos finite
    have htop := f.two_le_code
    show Binary.mul _ _ = _
    simp [Binary.mul, Binary.signedInfinity, hzero]
    omega
  nan := by cases weight <;> rfl

/-! ## Rates under the bound -/

theorem isFinite_lower (valid : cell.estimate.Valid)
    (finite : cell.estimate.diameter.isFinite = true) : cell.estimate.lb.isFinite = true := by
  have bounded : cell.estimate.isUnbounded = false := by
    cases h : cell.estimate.isUnbounded with
    | false => rfl
    | true => simp [Interval.diameter_of_unbounded h, Binary.infinity, Binary.signedInfinity,
        Binary.isFinite] at finite
  exact (valid.isFinite bounded).1

/-- Over a width above zero a rate is a number, and grows with the bound. -/
theorem tightnessOf_le (valid : cell.estimate.Valid) (finite : cell.estimate.diameter.isFinite = true)
    (pos : .zero < cell.estimate.diameter) (h : bound ≤ bound') :
    tightnessOf cell bound ≤ tightnessOf cell bound' :=
  Binary.div_le_div (Binary.sub_le_sub_right h (isFinite_lower valid finite)) pos finite

/-- Over a width of zero the distance alone decides whether the cell comes first or last, and it does so the
other way round if the zero is negative. -/
theorem ofRate_flat (hw : KeepsOrder weigh) {negative : Bool} {d : Int}
    (flat : cell.estimate.diameter = .signedZero negative)
    (hd : (bound - cell.estimate.lb).place = some d) :
    ofRate (weigh (tightnessOf cell bound)) =
      if 0 < (if negative then -d else d) then .negInfinity else .infinity := by
  rw [tightnessOf, flat, Binary.div_signedZero hd]
  rcases Int.lt_trichotomy d 0 with hlt | rfl | hgt
  · have : ¬ 0 < d := by omega
    have : d ≠ 0 := by omega
    cases negative <;> simp [*, hw.signedInfinity, Binary.infinity, Binary.negInfinity]
  · cases negative <;> simp [hw.nan]
  · have : ¬ d < 0 := by omega
    have : d ≠ 0 := by omega
    cases negative <;> simp [*, hw.signedInfinity, Binary.infinity, Binary.negInfinity]

/-- A lower bound never makes the cell come earlier. -/
def NeverPromotes (r : Ranking) (cell : Cell f) : Prop :=
  ∀ bound bound' : Binary f, bound ≤ bound' → r.cost cell bound' ≤ r.cost cell bound

theorem rate_falls_iff (hw : KeepsOrder weigh) (valid : cell.estimate.Valid)
    (finite : cell.estimate.diameter.isFinite = true) :
    (∀ bound bound' : Binary f, bound ≤ bound' →
      ofRate (weigh (tightnessOf cell bound')) ≤ ofRate (weigh (tightnessOf cell bound))) ↔
      cell.estimate ≠ ⟨.zero, .signedZero true⟩ := by
  rw [ne_eq, ← Interval.diameter_eq_negativeZero_iff valid]
  obtain ⟨width, hwidth, hnonneg⟩ := valid.exists_diameter
  rcases Int.lt_or_eq_of_le hnonneg with hpos | rfl
  · have pos : .zero < cell.estimate.diameter :=
      (Binary.lt_iff_of_place Binary.place_zero hwidth).2 hpos
    refine iff_of_true (fun _ _ h => ofRate_le (hw.le (tightnessOf_le valid finite pos h))) fun h => ?_
    rw [h] at hwidth
    obtain rfl : 0 = width := Option.some.inj hwidth
    exact Int.lt_irrefl 0 hpos
  · obtain ⟨negative, flat⟩ := Binary.isZero_eq_true_iff.1 ((Binary.isZero_iff hwidth).2 rfl)
    cases negative with
    | false =>
      refine iff_of_true (fun bound bound' h => ?_) (by simp [flat, Binary.signedZero])
      obtain ⟨hbound, hbound'⟩ := Binary.isNaN_of_le h
      have lower := isFinite_lower valid finite
      -- the distances up to the bounds, which are numbers
      obtain ⟨d, hd⟩ := Binary.exists_place (Binary.isNaN_sub hbound lower)
      obtain ⟨d', hd'⟩ := Binary.exists_place (Binary.isNaN_sub hbound' lower)
      have hdd := (Binary.le_iff_of_place hd hd').1 (Binary.sub_le_sub_right h lower)
      rw [ofRate_flat hw flat hd, ofRate_flat hw flat hd']
      by_cases hfirst : 0 < d
      · have : 0 < d' := by omega
        simp only [Bool.false_eq_true, if_false, hfirst, this, if_true]
        exact Binary.le_refl rfl
      · simp only [Bool.false_eq_true, if_false, hfirst]
        split <;> exact Binary.le_infinity rfl
    | true =>
      -- first below all numbers, last above them
      refine iff_of_false (fun h => ?_) (by simp [flat])
      have htop := f.two_le_code
      obtain ⟨hinfinity, hnegInfinity⟩ := Binary.infinity_sub (isFinite_lower valid finite)
      have hle := h .negInfinity .infinity (Binary.le_infinity rfl)
      rw [ofRate_flat hw flat ((congrArg _ hinfinity).trans Binary.place_infinity),
        ofRate_flat hw flat ((congrArg _ hnegInfinity).trans Binary.place_negInfinity),
        if_neg (by simp), if_pos (by simp; omega),
        Binary.le_iff_of_place Binary.place_infinity Binary.place_negInfinity] at hle
      omega

/-! ## Bounds that change a cost -/

/-- A cell with a width above zero at which every look at the bound shows: the weight is a number above zero,
and the goal has a lower bound that is neither zero nor infinite. -/
structure ShowsBound (r : Ranking) (cell : Cell f) : Prop where
  valid : cell.estimate.Valid
  width : .zero < cell.estimate.diameter
  width_finite : cell.estimate.diameter.isFinite = true
  weight : .zero < cell.weight
  weight_finite : cell.weight.isFinite = true
  goal : ∀ goal, r.goal? = some goal → .zero < goalLowerBound cell goal
  goal_finite : ∀ goal, r.goal? = some goal → (goalLowerBound cell goal).isFinite = true

/-- From the lower bound of the estimate to infinity the rate goes from zero to infinity, and so the cost
from zero to infinity or back. -/
theorem ShowsBound.cost_differs {r : Ranking} (h : ShowsBound r cell)
    (dependent : r.dependsOnBound = true) :
    (r.cost cell cell.estimate.lb).equals (r.cost cell .infinity) = false := by
  have hw := keepsOrder_mul h.weight h.weight_finite
  have lower := isFinite_lower h.valid h.width_finite
  have hlast : tightnessOf cell .infinity = .infinity := by
    rw [tightnessOf, (Binary.infinity_sub lower).1]
    exact Binary.signedInfinity_div false h.width h.width_finite
  have hfirst : (tightnessOf cell cell.estimate.lb).isZero = true :=
    Binary.isZero_div ((Binary.isZero_iff (Binary.place_sub_self lower)).2 rfl) h.width h.width_finite
  have hweighed : cell.weight * tightnessOf cell .infinity = .infinity := by
    rw [hlast]
    exact hw.signedInfinity false
  have hweighed' : (cell.weight * tightnessOf cell cell.estimate.lb).isZero = true := by
    obtain ⟨negative, hzero⟩ := Binary.isZero_eq_true_iff.1 hfirst
    rw [hzero]
    have hnumber := Binary.isNaN_of_le (hw.le (Binary.le_refl (a := .signedZero negative) rfl))
    exact Binary.isZero_mul hnumber.1 (Binary.isNaN_of_le (Binary.le_of_lt h.weight)).2 rfl (.inr rfl)
  have hcheap : (ofRate .infinity : Binary f).isInfinite = true := Binary.isInfinite_signedInfinity true
  cases r with
  | tightness =>
    rw [cost_tightness, cost_tightness, hlast]
    exact (Binary.equals_of_isZero_of_isInfinite (isZero_ofRate hfirst) hcheap).1
  | weightedTightness =>
    rw [cost_weightedTightness, cost_weightedTightness, hweighed]
    exact (Binary.equals_of_isZero_of_isInfinite (isZero_ofRate hweighed') hcheap).1
  | goalOverTightness goal =>
    obtain ⟨zero, d, hzero, hd, hpos⟩ := Binary.lt_iff.1 (h.goal goal rfl)
    cases hzero
    have hcost : ((goalOverTightness goal).cost cell cell.estimate.lb).isInfinite = true := by
      obtain ⟨negative, hflat⟩ := Binary.isZero_eq_true_iff.1 hweighed'
      have hformula : (goalOverTightness goal).formula cell cell.estimate.lb =
          .signedInfinity (decide (d < 0) != negative) := by
        rw [formula, hflat, Binary.div_signedZero hd, if_neg (by omega)]
      rw [cost_of_number (by rw [hformula]; rfl), hformula]
      exact Binary.isInfinite_signedInfinity _
    have hcost' : ((goalOverTightness goal).cost cell .infinity).isZero = true := by
      have hformula : ((goalOverTightness goal).formula cell .infinity).isZero = true := by
        rw [formula, hweighed]
        exact Binary.isZero_div_infinity (h.goal_finite goal rfl)
      obtain ⟨negative, hflat⟩ := Binary.isZero_eq_true_iff.1 hformula
      rwa [cost_of_number (by rw [hflat]; rfl)]
    exact (Binary.equals_of_isZero_of_isInfinite hcost' hcost).2
  | _ => cases dependent

/-- The cell of so many variables, each of which is one, with an estimate from zero to one. -/
def plainCell (size : Nat) : Cell f :=
  { Cell.ofRegion ⟨List.replicate size ⟨.one, .one⟩⟩ with estimate := ⟨.zero, .one⟩, weight := .one }

theorem showsBound_plainCell {r : Ranking} {size : Nat} (h : ∀ goal, r.goal? = some goal → goal < size) :
    ShowsBound r (plainCell size : Cell f) := by
  obtain ⟨hone, hpos⟩ := Binary.one_finite (f := f)
  have valid : (plainCell size : Cell f).estimate.Valid := Binary.le_of_lt hpos
  have hgoal (goal : Nat) (hr : r.goal? = some goal) :
      goalLowerBound (plainCell size : Cell f) goal = .one := by
    simp [goalLowerBound, plainCell, Region.get?, Cell.ofRegion, h goal hr]
  have hcode : f.oneCode ≠ f.infinityCode := by simpa [Binary.one, Binary.isFinite] using hone
  have hplace : (Binary.one : Binary f).place = some (f.oneCode : Int) := rfl
  -- the width is exactly one
  have hwidth : (plainCell size : Cell f).estimate.diameter.place = some (f.oneCode : Int) := by
    have htop := f.two_le_code
    have bounded := (Interval.isUnbounded_eq_false_iff (a := (plainCell size : Cell f).estimate)
      Binary.place_zero hplace).2 ⟨by omega, by omega⟩
    have hzero : (Binary.zero : Binary f).exactUnits = 0 := by
      simp [Binary.zero, Binary.signedZero, Binary.exactUnits, Format.signedUnits, f.units_zero]
    rw [valid.place_diameter bounded]
    simp only [plainCell, hzero, Int.sub_zero]
    exact congrArg some (Binary.signedCode_exactUnits hplace)
  refine ⟨valid, ?_, ?_, hpos, hone, fun goal hr => hgoal goal hr ▸ hpos,
    fun goal hr => hgoal goal hr ▸ hone⟩
  · rw [Binary.lt_iff_of_place Binary.place_zero hplace] at hpos
    exact (Binary.lt_iff_of_place Binary.place_zero hwidth).2 hpos
  · rw [Binary.isFinite_eq_true_iff, ← Bool.not_eq_true (Binary.isInfinite _),
      Binary.isInfinite_iff hwidth]
    exact ⟨Binary.isNaN_of_place hwidth, by omega⟩

/-- Under a ranking that does not look at the bound every cost is the same for all bounds. Under every other
one there are, for each number of variables that includes its goal, a cell and two numbers as bounds with
different costs. With an estimate of finite width a cell that is ranked by tightness, or by tightness with a
finite weight above zero, never comes earlier for a lower bound, except with the one estimate whose width
is negative: the one from the positive zero up to the negative one. -/
theorem costs_follow_bound :
    (∀ r : Ranking, r.dependsOnBound = false →
      ∀ (cell : Cell f) (bound bound' : Binary f), r.cost cell bound = r.cost cell bound') ∧
    (∀ r : Ranking, r.dependsOnBound = true →
      ∀ size, (∀ goal, r.goal? = some goal → goal < size) →
        ∃ (cell : Cell f) (bound bound' : Binary f), cell.region.size = size ∧ cell.region.Valid ∧
          cell.estimate.Valid ∧ bound.isNaN = false ∧ bound'.isNaN = false ∧
          (r.cost cell bound).equals (r.cost cell bound') = false) ∧
    ∀ cell : Cell f, cell.estimate.Valid → cell.estimate.diameter.isFinite = true →
      (tightness.NeverPromotes cell ↔ cell.estimate ≠ ⟨.zero, .signedZero true⟩) ∧
      (.zero < cell.weight → cell.weight.isFinite = true →
        (weightedTightness.NeverPromotes cell ↔ cell.estimate ≠ ⟨.zero, .signedZero true⟩)) := by
  refine ⟨fun r h cell bound bound' => cost_eq_of_independent h cell bound bound',
    fun r dependent size hsize => ?_, fun cell valid finite => ⟨?_, fun pos hweight => ?_⟩⟩
  · have hshows := showsBound_plainCell (f := f) hsize
    refine ⟨plainCell size, _, _, ?_, ?_, hshows.valid, ?_, rfl, hshows.cost_differs dependent⟩
    · simp [plainCell, Cell.ofRegion, Region.size]
    · intro a ha
      obtain ⟨-, rfl⟩ : size ≠ 0 ∧ a = ⟨.one, .one⟩ := by
        simpa [plainCell, Cell.ofRegion] using ha
      exact Binary.le_refl rfl
    · exact (Binary.isNaN_of_le hshows.valid).1
  · exact rate_falls_iff keepsOrder_id valid finite
  · exact rate_falls_iff (keepsOrder_mul pos hweight) valid finite

/-- A cell whose estimate holds zero alone, and one with an estimate of no width but from the positive zero
up to the negative one. The first comes later for a bound below zero, and the second does not. -/
theorem costs_follow_bound_flat :
    let cell : Cell .binary64 := { Cell.ofRegion (.entire 1) with estimate := ⟨.zero, .zero⟩, weight := .one }
    let turned : Cell .binary64 := { cell with estimate := ⟨.zero, .signedZero true⟩ }
    weight.dependsOnBound = false ∧ weight.cost cell .nan = weight.cost cell .one ∧
      (∃ (other : Cell .binary64) (bound bound' : Binary .binary64), other.region.size = 3 ∧
        ((goalOverTightness 2).cost other bound).equals ((goalOverTightness 2).cost other bound') = false) ∧
      cell.estimate.Valid ∧ cell.estimate.diameter.isFinite = true ∧ tightness.NeverPromotes cell ∧
      weightedTightness.NeverPromotes cell ∧ ¬ weightedTightness.NeverPromotes turned := by
  intro cell turned
  obtain ⟨independent, dependent, falls⟩ := costs_follow_bound (f := .binary64)
  obtain ⟨other, bound, bound', hsize, -, -, -, -, hdiffers⟩ :=
    dependent (goalOverTightness 2) rfl 3 (by rintro _ ⟨⟩; decide)
  have hvalid : cell.estimate.Valid := by decide +kernel
  have hfinite : cell.estimate.diameter.isFinite = true := by decide +kernel
  have hpos : Binary.zero < cell.weight := by decide +kernel
  obtain ⟨tight, weighted⟩ := falls cell hvalid hfinite
  obtain ⟨-, weighted'⟩ := falls turned (by decide +kernel) (by decide +kernel)
  exact ⟨rfl, independent weight rfl cell .nan .one, ⟨other, bound, bound', hsize, hdiffers⟩, hvalid,
    hfinite, tight.2 (by decide +kernel), (weighted hpos rfl).2 (by decide +kernel),
    fun h => (weighted' hpos rfl).1 h rfl⟩

/-- The estimate from the positive zero up to the negative one equals the one that holds zero alone, and a
bound of one is above minus one. By the first the cell comes first for minus one and last for one, by the
second it is the other way round. -/
theorem turned_by_negative_zero :
    let turned : Cell .binary64 := { Cell.ofRegion (.entire 1) with estimate := ⟨.zero, .signedZero true⟩ }
    let cell : Cell .binary64 := { turned with estimate := ⟨.zero, .zero⟩ }
    turned.estimate.Valid ∧ turned.estimate.lb.isFinite = true ∧ turned.estimate.ub.isFinite = true ∧
      turned.estimate.diameter.isZero = true ∧ turned.equals cell = true ∧
      (-.one : Binary .binary64) ≤ .one ∧
      tightness.cost turned (-.one) = .negInfinity ∧ tightness.cost turned .one = .infinity ∧
      tightness.cost cell (-.one) = .infinity ∧ tightness.cost cell .one = .negInfinity ∧
      ¬ tightness.cost turned .one ≤ tightness.cost turned (-.one) := by
  decide +kernel

end Ranking

end BranchBound
