import Fifo.Random.Generator

/-!
# Bounded draws

An index below a bound is the high half of a random word times the bound. Words whose low half lies
above a limit are passed over, so that every index is hit by the same number of words.

A draw searches one period of the stream. If that holds no accepted word, neither does the rest.

Bounds are words of 32 bits, and so these draws are for lists with fewer than 2^32 elements.
-/

namespace Fifo
namespace Random

/-- The number of zero bits above the topmost one bit of a word that is not zero. -/
def leadingZeros (n : UInt32) : UInt32 :=
  31 - n.log2

/-- The greatest low half that is accepted: the bound shifted to the top of a word, less one. -/
def acceptanceLimit (n : UInt32) : UInt32 :=
  (n <<< leadingZeros n) - 1

/-- The index below `n` that a word gives, if the word is accepted. -/
def index? (n word : UInt32) : Option UInt32 :=
  let product := word.toUInt64 * n.toUInt64
  if product.toUInt32 ≤ acceptanceLimit n then some (product >>> 32).toUInt32 else none

namespace Generator

/-- The index below `n` that the first accepted one of the next `tries` words gives. -/
def search? (n : UInt32) : Nat → Generator → Option (Nat × Generator)
  | 0, _ => none
  | tries + 1, g =>
      let r := g.next
      match index? n r.1 with
      | some i => some (i.toNat, r.2)
      | none => search? n tries r.2

/-- Draws an index below `n`; there is none if the stream has no accepted word. A bound of 2^32 or
more, which would take words of 64 bits, is reduced modulo 2^32. -/
def below? (n : Nat) (g : Generator) : Option (Nat × Generator) :=
  search? (UInt32.ofNat n) period g

end Generator
end Random
end Fifo
