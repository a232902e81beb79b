/-
Room for arrays. An array has less than half as many bytes as a word can count; whether the machine
has that much memory is not asked. An array that grows asks for more room than it needs
(`Room.grown`), so that it may be refused long before it has that many bytes; `Room.extend_iff` tells
when it never is.
-/
namespace BranchBound.Room

/-- The most bytes of an array. -/
def limit : Nat := UInt64.size / 2 - 1

/-- Why an array is not made. -/
inductive Fault where
  | tooLong (places bytes : Nat)
  deriving DecidableEq

def Fault.message : Fault → String
  | tooLong _ _ => "capacity overflow"

/-- Asks for an array of so many places, each of so many bytes. -/
def reserve (places bytes : Nat) : Except Fault Unit :=
  if places * bytes ≤ limit then .ok () else .error (.tooLong places bytes)

/-- The room that an array grows to: twice what it had, or what is needed if that is more, and
never less than four places. -/
def grown (room needed : Nat) : Nat := max (max (2 * room) needed) 4

/-- The room of an array for so many places, each of so many bytes, after it had some room. -/
def extend (room needed bytes : Nat) : Except Fault Nat :=
  if needed ≤ room then .ok room
  else (reserve (grown room needed) bytes).map fun _ => grown room needed

/-- The most places that an array can be given whatever room it has. -/
def growable (bytes : Nat) : Nat := limit / (2 * bytes) + 1

theorem extend_of_le {room needed : Nat} (h : needed ≤ room) (bytes : Nat) :
    extend room needed bytes = .ok room :=
  if_pos h

/-- An array that has to grow does so if what it asks for is not too long. -/
theorem extend_iff_of_lt {room needed bytes : Nat} (h : room < needed) :
    (∃ room', extend room needed bytes = .ok room') ↔ grown room needed * bytes ≤ limit := by
  unfold extend reserve
  rw [if_neg (by omega)]
  split
  · rename_i hfits
    exact iff_of_true ⟨_, rfl⟩ hfits
  · rename_i hfits
    exact iff_of_false nofun hfits

/-- An array that has less room than `growable` says asks for no more than it may. -/
theorem grown_mul_le_limit {room needed bytes : Nat} (hfour : 4 * bytes ≤ limit)
    (hroom : room < needed) (h : needed ≤ growable bytes) : grown room needed * bytes ≤ limit := by
  have hmost : grown room needed ≤ max (2 * (limit / (2 * bytes))) 4 := by
    unfold growable at h
    unfold grown
    omega
  refine Nat.le_trans (Nat.mul_le_mul_right _ hmost) ?_
  rcases Nat.le_total (2 * (limit / (2 * bytes))) 4 with hsmall | hlarge
  · rwa [Nat.max_eq_right hsmall]
  · rw [Nat.max_eq_left hlarge]
    calc 2 * (limit / (2 * bytes)) * bytes = limit / (2 * bytes) * (2 * bytes) := by ac_rfl
      _ ≤ limit := Nat.div_mul_le_self ..

/-- An array can be given so many places whatever room it has just if they are no more than
`growable` says. The one that comes closest has room for all of them but one. -/
theorem extend_iff {needed bytes : Nat} (hbytes : 0 < bytes) (hfour : 4 * bytes ≤ limit) :
    (∀ room, ∃ room', extend room needed bytes = .ok room') ↔ needed ≤ growable bytes := by
  constructor
  · intro h
    rcases Nat.eq_zero_or_pos needed with rfl | hpos
    · exact Nat.zero_le _
    · have hfits := (extend_iff_of_lt (Nat.sub_one_lt_of_lt hpos)).1 (h (needed - 1))
      have hdouble : 2 * (needed - 1) ≤ grown (needed - 1) needed :=
        Nat.le_trans (Nat.le_max_left ..) (Nat.le_max_left ..)
      refine Nat.le_add_of_sub_le ?_
      rw [Nat.le_div_iff_mul_le (by omega)]
      calc (needed - 1) * (2 * bytes) = 2 * (needed - 1) * bytes := by ac_rfl
        _ ≤ grown (needed - 1) needed * bytes := Nat.mul_le_mul_right _ hdouble
        _ ≤ limit := hfits
  · intro h room
    rcases Nat.lt_or_ge room needed with hroom | hroom
    · exact (extend_iff_of_lt hroom).2 (grown_mul_le_limit hfour hroom h)
    · exact ⟨room, extend_of_le hroom bytes⟩

end BranchBound.Room
