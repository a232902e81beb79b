/-
Counters that stop at the largest 64 bit number instead of starting over.
-/
namespace BranchBound.Counter

def limit : Nat := UInt64.size - 1

def raise (count amount : Nat) : Nat := min (count + amount) limit

theorem raise_le (count amount : Nat) : raise count amount ≤ limit := Nat.min_le_right ..

/-- Below the limit a count is raised by the whole amount. -/
theorem raise_eq_add {count amount : Nat} (h : count + amount ≤ limit) :
    raise count amount = count + amount :=
  Nat.min_eq_left h

end BranchBound.Counter
