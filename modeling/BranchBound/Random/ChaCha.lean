/-
The random words behind a seed: the key stream of the ChaCha cipher with eight rounds, read as one
endless row of 32 bit words. A word depends on the key and its position alone.
-/
namespace BranchBound.Random

/-- A block of the cipher, sixteen words that stand for a square of four by four. -/
abbrev Block := Vector UInt32 16

/-- A key of the cipher. -/
abbrev Key := Vector UInt32 8

/-! ## The cipher -/

/-- A word with its bits turned to the left. -/
def rotateLeft (x amount : UInt32) : UInt32 := (x <<< amount) ||| (x >>> (32 - amount))

/-- A word with its bits turned to the right. -/
def rotateRight (x amount : UInt32) : UInt32 := (x >>> amount) ||| (x <<< (32 - amount))

/-- Adds the word at `j` to that at `i`, and turns what the word at `k` and the sum differ in. -/
def mix (b : Block) (i j k : Fin 16) (amount : UInt32) : Block :=
  let b := b.set i (b[i] + b[j])
  b.set k (rotateLeft (b[k] ^^^ b[i]) amount)

/-- Mixes four words of a block. -/
def quarterRound (x : Block) (a b c d : Fin 16) : Block :=
  let x := mix x a b d 16
  let x := mix x c d b 12
  let x := mix x a b d 8
  mix x c d b 7

/-- Mixes the columns of a block and then its diagonals. -/
def doubleRound (x : Block) : Block :=
  let x := quarterRound x 0 4 8 12
  let x := quarterRound x 1 5 9 13
  let x := quarterRound x 2 6 10 14
  let x := quarterRound x 3 7 11 15
  let x := quarterRound x 0 5 10 15
  let x := quarterRound x 1 6 11 12
  let x := quarterRound x 2 7 8 13
  quarterRound x 3 4 9 14

/-- The block of a number before it is mixed: the constants of the cipher, the key, the number in
two words and an empty nonce. -/
def initialBlock (key : Key) (number : Nat) : Block :=
  let constants : Vector UInt32 4 := #v[0x61707865, 0x3320646e, 0x79622d32, 0x6b206574]
  let counter : Vector UInt32 4 := #v[number.toUInt32, (number / UInt32.size).toUInt32, 0, 0]
  constants ++ key ++ counter

/-- The mixed block of a number, in eight rounds. -/
def block (key : Key) (number : Nat) : Block :=
  let start := initialBlock key number
  let mixed := doubleRound (doubleRound (doubleRound (doubleRound start)))
  start.zipWith (· + ·) mixed

/-- The word at a position of the key stream. -/
def word (key : Key) (position : Nat) : UInt32 :=
  (block key (position / 16)).get ⟨position % 16, Nat.mod_lt _ (by decide)⟩

/-! ## Keys from seeds -/

/-- The state of the seed sequence after one step. -/
def nextSeed (state : UInt64) : UInt64 := state * 6364136223846793005 + 11634580027462260723

/-- The word that a state of the seed sequence gives. -/
def seedWord (state : UInt64) : UInt32 :=
  rotateRight (((state >>> 18) ^^^ state) >>> 27).toUInt32 (state >>> 59).toUInt32

/-- The state of the seed sequence after some steps. -/
def seedAfter (seed : UInt64) : Nat → UInt64
  | 0 => seed
  | count + 1 => nextSeed (seedAfter seed count)

/-- The key of a seed: the words of the first eight steps of its sequence. -/
def Key.ofSeed (seed : UInt64) : Key := Vector.ofFn fun i => seedWord (seedAfter seed (i + 1))

end BranchBound.Random
