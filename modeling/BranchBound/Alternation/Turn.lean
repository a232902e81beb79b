/-
Whose turn it is. A turn always knows the view that supplies the next pop, so looking at it draws
nothing; after a pop it advances.
-/
import BranchBound.Alternation.Policy
import BranchBound.Random.Percent

namespace BranchBound

/-- The state of an alternation between the views. -/
structure Turn where
  policy : Policy
  /-- The view that supplies the next pop. -/
  current : View
  /-- How many pops of a quota are left to the current view. -/
  remaining : Nat
  /-- The source of random percentages, if the policy draws. -/
  generator : Option Random.Generator
  deriving DecidableEq

namespace Turn

inductive Fault where
  | invalid (policy : Policy)
  deriving DecidableEq

def Fault.message : Fault → String
  | invalid policy => "called `Alternator::new` with an invalid policy " ++ policy.text

/-- The quota of a view, zero for a policy without quotas. -/
def quotaOf (policy : Policy) (view : View) : Nat :=
  match policy, view with
  | .quota first _, .first => first
  | .quota _ second, .second => second
  | _, _ => 0

/-- The view that a percentage gives to the next pop, and the generator after it. -/
def drawn (percent : Nat) (generator : Random.Generator) : View × Random.Generator :=
  let draw := generator.percent
  (if draw.1 < percent then .first else .second, draw.2)

def start (policy : Policy) : Turn :=
  match policy with
  | .strict | .firstOnly => ⟨policy, .first, 0, none⟩
  | .secondOnly => ⟨policy, .second, 0, none⟩
  | .quota first second =>
    if 0 < first then ⟨policy, .first, first, none⟩ else ⟨policy, .second, second, none⟩
  | .percentage percent seed =>
    let draw := drawn percent (.ofSeed seed)
    ⟨policy, draw.1, 0, some draw.2⟩

/-- The first turn of a policy that has to be one that can be followed. -/
def ofPolicy (policy : Policy) : Except Fault Turn :=
  match policy.error? with
  | none => .ok (start policy)
  | some _ => .error (.invalid policy)

/-- The turn that begins with a view's whole quota. -/
def refilled (t : Turn) (view : View) : Turn :=
  { t with current := view, remaining := quotaOf t.policy view }

/-- The turn after a pop. A quota passes to the other view when it is used up, unless the other
view has none. -/
def advance (t : Turn) : Turn :=
  match t.policy with
  | .strict => { t with current := t.current.other }
  | .firstOnly | .secondOnly => t
  | .quota _ _ =>
    if 1 < t.remaining then { t with remaining := t.remaining - 1 }
    else if quotaOf t.policy t.current.other = 0 then t.refilled t.current
    else t.refilled t.current.other
  | .percentage percent _ =>
    match t.generator with
    | some generator =>
      let draw := drawn percent generator
      { t with current := draw.1, generator := some draw.2 }
    | none => { t with current := .first }

/-- A turn follows one policy for good. -/
@[simp]
theorem policy_start (policy : Policy) : (start policy).policy = policy := by
  unfold start
  split
  · rfl
  · rfl
  · rfl
  · split <;> rfl
  · rfl

@[simp]
theorem policy_advance (t : Turn) : t.advance.policy = t.policy := by
  unfold advance
  split
  · rfl
  · rfl
  · rfl
  · split
    · rfl
    · split <;> rfl
  · split <;> rfl

/-- The first turn once more. -/
def reset (t : Turn) : Turn := start t.policy

end Turn

end BranchBound
