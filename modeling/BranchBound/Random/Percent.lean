/-
Random percentages: numbers below one hundred, drawn one after the other from the words behind a
seed.
-/
import BranchBound.Random.ChaCha

namespace BranchBound.Random

/-- A place in the words behind a seed. -/
structure Generator where
  key : Key
  /-- How many words have been taken. -/
  position : Nat
  deriving DecidableEq

namespace Generator

/-- The generator of a seed, before its first word. -/
def ofSeed (seed : UInt64) : Generator := ⟨.ofSeed seed, 0⟩

/-- The next word as a natural number. -/
def next (g : Generator) : Nat := (word g.key g.position).toNat

/-- The generator after some more words. -/
def skip (g : Generator) (count : Nat) : Generator := { g with position := g.position + count }

/-- A number below one hundred: the whole part of one hundred times the word, taken as a fraction.
Where the next word could still carry into the whole part, it is taken too. -/
def percent (g : Generator) : Nat × Generator :=
  let scaled := g.next * 100
  let whole := scaled / UInt32.size
  let rest := scaled % UInt32.size
  if UInt32.size - 100 < rest then
    let carry := (g.skip 1).next * 100 / UInt32.size
    (if UInt32.size ≤ rest + carry then whole + 1 else whole, g.skip 2)
  else (whole, g.skip 1)

end Generator

end BranchBound.Random
