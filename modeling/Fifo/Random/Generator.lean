import Fifo.Random.Key

/-!
# The generator

Random words are the key stream of a block cipher run over a counter. A block is a four by four
matrix of words: four constants, the key, a 64-bit counter and two zeros. Six double rounds mix its
columns and its diagonals, and the start is added to the result; its sixteen words in order are the
next words of the stream.
-/

namespace Fifo
namespace Random

/-- Sixteen words, row by row. -/
abbrev Block := Vector UInt32 16

/-- Turns the bits of a word to the left, by less than 32 places. -/
def rotateLeft (x k : UInt32) : UInt32 :=
  (x <<< k) ||| (x >>> (32 - k))

/-- Adds word `b` to word `a`, then combines the sum with word `d` and turns the result. -/
def mix (a b d : Fin 16) (turn : UInt32) (s : Block) : Block :=
  let sum := s[a] + s[b]
  (s.set a sum).set d (rotateLeft (s[d] ^^^ sum) turn)

/-- Mixes four words of a block. -/
def quarterRound (a b c d : Fin 16) (s : Block) : Block :=
  mix c d b 7 (mix a b d 8 (mix c d b 12 (mix a b d 16 s)))

/-- Mixes the columns of a block, then its diagonals. -/
def doubleRound (s : Block) : Block :=
  let columns := quarterRound 3 7 11 15 (quarterRound 2 6 10 14
    (quarterRound 1 5 9 13 (quarterRound 0 4 8 12 s)))
  quarterRound 3 4 9 14 (quarterRound 2 7 8 13
    (quarterRound 1 6 11 12 (quarterRound 0 5 10 15 columns)))

/-- The matrix that a block starts from. -/
def start (key : Key) (counter : UInt64) : Block :=
  #v[0x61707865, 0x3320646E, 0x79622D32, 0x6B206574,
    key[0], key[1], key[2], key[3], key[4], key[5], key[6], key[7],
    counter.toUInt32, (counter >>> 32).toUInt32, 0, 0]

/-- The block of the stream at a counter. -/
def block (key : Key) (counter : UInt64) : Block :=
  let s := start key counter
  (Nat.repeat doubleRound 6 s).zipWith (· + ·) s

/-- A place in a stream: its key, the counter of the next block, and the words of the last block
that are still to come. -/
structure Generator where
  key : Key
  counter : UInt64
  pending : List UInt32
  deriving DecidableEq

namespace Generator

/-- The generator at the start of the stream of a seed. -/
def ofSeed (seed : UInt64) : Generator :=
  ⟨Key.ofSeed seed, 0, []⟩

/-- The next word, and the generator behind it. -/
def next (g : Generator) : UInt32 × Generator :=
  match g.pending with
  | w :: ws => (w, { g with pending := ws })
  | [] =>
      let b := block g.key g.counter
      (b[0], { g with counter := g.counter + 1, pending := b.toList.tail })

/-- The words of a stream repeat after so many: there are sixteen for each counter. -/
def period : Nat := 16 * UInt64.size

end Generator
end Random
end Fifo
