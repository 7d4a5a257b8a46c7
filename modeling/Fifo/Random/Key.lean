/-!
# Keys from seeds

A generator is keyed by eight 32-bit words. They are drawn from a 64-bit seed by a linear
congruence: each step gives one word, folded down to 32 bits and rotated by the topmost bits.
-/

namespace Fifo
namespace Random

/-- The words that key a generator. -/
abbrev Key := Vector UInt32 8

/-- One step of the congruence. -/
def congruence (state : UInt64) : UInt64 :=
  state * 6364136223846793005 + 11634580027462260723

/-- Turns the bits of a word to the right, by less than 32 places. -/
def rotateRight (x k : UInt32) : UInt32 :=
  (x >>> k) ||| (x <<< (32 - k))

/-- The word that a state of the congruence gives. -/
def fold (state : UInt64) : UInt32 :=
  rotateRight (((state >>> 18) ^^^ state) >>> 27).toUInt32 (state >>> 59).toUInt32

/-- The key of a seed: the words of the eight states that follow it. -/
def Key.ofSeed (seed : UInt64) : Key :=
  Vector.ofFn fun i => fold (Nat.repeat congruence (i.val + 1) seed)

end Random
end Fifo
