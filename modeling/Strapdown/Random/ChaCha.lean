/-!
A stream of pseudorandom words: the ChaCha cipher with twelve rounds, under a key grown from a seed.
-/

namespace Strapdown.ChaCha

abbrev Block := Vector UInt32 16

def rotateLeft (x n : UInt32) : UInt32 := x <<< n ||| x >>> (32 - n)

/-- One step of a quarter round: adds a word to another and mixes the sum into a third. -/
def mix (s : Block) (a b d : Fin 16) (n : UInt32) : Block :=
  let sum := s[a] + s[b]
  (s.set a sum).set d (rotateLeft (s[d] ^^^ sum) n)

def quarterRound (s : Block) (a b c d : Fin 16) : Block :=
  let s := mix s a b d 16
  let s := mix s c d b 12
  let s := mix s a b d 8
  mix s c d b 7

/-- A round over the columns and a round over the diagonals. -/
def doubleRound (s : Block) : Block :=
  let s := quarterRound s 0 4 8 12
  let s := quarterRound s 1 5 9 13
  let s := quarterRound s 2 6 10 14
  let s := quarterRound s 3 7 11 15
  let s := quarterRound s 0 5 10 15
  let s := quarterRound s 1 6 11 12
  let s := quarterRound s 2 7 8 13
  quarterRound s 3 4 9 14

abbrev Key := Vector UInt32 8

/-- The block before any round: four constants, the key, the counter, and a stream of zero. -/
def initialBlock (key : Key) (counter : UInt64) : Block :=
  (#v[0x61707865, 0x3320646e, 0x79622d32, 0x6b206574] : Vector UInt32 4) ++ key ++
    (#v[counter.toUInt32, (counter >>> 32).toUInt32, 0, 0] : Vector UInt32 4)

def block (key : Key) (counter : UInt64) : Block :=
  let start := initialBlock key counter
  (Nat.repeat doubleRound 6 start).zipWith (· + ·) start

/-- The generator behind a key: each state gives one word of it. -/
def seedStep (s : UInt64) : UInt64 := s * 6364136223846793005 + 11634580027462260723

/-- The word that a state of the seed generator gives. -/
def seedWord (s : UInt64) : UInt32 :=
  let x : UInt32 := ((s >>> 18 ^^^ s) >>> 27).toUInt32
  let n : UInt32 := (s >>> 59).toUInt32
  rotateLeft x (32 - n)

def keyOfSeed (seed : UInt64) : Key :=
  Vector.ofFn fun i => seedWord (Nat.repeat seedStep (i.val + 1) seed)

/-- A place in the stream of a key, counted in words of 64 bits. -/
structure Stream where
  key : Key
  position : Nat
  /-- The block of the place, which holds eight words. -/
  current : Block
  current_eq : current = block key (position / 8).toUInt64

namespace Stream

def ofPosition (key : Key) (position : Nat) : Stream :=
  ⟨key, position, block key (position / 8).toUInt64, rfl⟩

def ofSeed (seed : UInt64) : Stream := ofPosition (keyOfSeed seed) 0

/-- The word at the current place: two halves of a block, the low one first. -/
def word (s : Stream) : UInt64 :=
  let half (i : Nat) : UInt64 := (s.current[2 * (s.position % 8) + i]?.getD 0).toUInt64
  half 0 ||| half 1 <<< 32

/-- The next place. Its block is the same, except after the last word of one. -/
def advance (s : Stream) : Stream :=
  if h : s.position % 8 = 7 then ofPosition s.key (s.position + 1)
  else
    have same : (s.position + 1) / 8 = s.position / 8 := by omega
    { s with position := s.position + 1, current_eq := by rw [same, s.current_eq] }

def next (s : Stream) : UInt64 × Stream := (s.word, s.advance)

end Stream
end Strapdown.ChaCha
