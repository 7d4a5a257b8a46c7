import Fifo.Random.Draw

/-!
# Shuffling

A list is shuffled by exchanging its last element with one at or before it, then the last but one,
and so on down to the second. Which exchanges are made depends on the generator and on the length
of the list alone: `shuffleFrom_eq` takes a shuffle apart into drawing the indices and exchanging
the elements.
-/

namespace Fifo
namespace Random

variable {α : Type}

/-- Shuffles the elements up to position `i`. -/
def shuffleFrom : Nat → Generator → Array α → Option (Array α × Generator)
  | 0, g, a => some (a, g)
  | i + 1, g, a =>
      match g.below? (i + 2) with
      | some (j, g') => shuffleFrom i g' (a.swapIfInBounds (i + 1) j)
      | none => none

/-- Shuffles a list, unless a draw has no result. -/
def shuffle? (g : Generator) (vs : List α) : Option (List α × Generator) :=
  (shuffleFrom (vs.length - 1) g vs.toArray).map fun r => (r.1.toList, r.2)

/-- The indices drawn for the positions `i`, `i - 1` and so on down to 1. -/
def indices? : Nat → Generator → Option (List Nat × Generator)
  | 0, g => some ([], g)
  | i + 1, g =>
      match g.below? (i + 2) with
      | some (j, g') => (indices? i g').map fun r => (j :: r.1, r.2)
      | none => none

/-- Exchanges the elements at the positions `i`, `i - 1` and so on for those at given indices. -/
def arrange : Nat → List Nat → Array α → Array α
  | i + 1, j :: js, a => arrange i js (a.swapIfInBounds (i + 1) j)
  | _, _, a => a

/-- A shuffle draws its indices and then exchanges. -/
theorem shuffleFrom_eq (i : Nat) (g : Generator) (a : Array α) :
    shuffleFrom i g a = (indices? i g).map fun r => (arrange i r.1 a, r.2) := by
  induction i generalizing g a with
  | zero => rfl
  | succ i ih =>
      rw [shuffleFrom, indices?]
      cases g.below? (i + 2) with
      | none => rfl
      | some r =>
          obtain ⟨j, g'⟩ := r
          simp only [ih]
          cases indices? i g' with
          | none => rfl
          | some s => rfl

end Random
end Fifo
