/-!
# Ranges of code points

Character classes that are data of a standard are written as lists of closed ranges.
-/

namespace Fifo
namespace Text

/-- The code points from `first` to `last`, both included. -/
structure CodeRange where
  first : Nat
  last : Nat

namespace CodeRange

def contains (r : CodeRange) (c : Char) : Bool :=
  r.first ≤ c.toNat && c.toNat ≤ r.last

def anyContains (rs : List CodeRange) (c : Char) : Bool :=
  rs.any (·.contains c)

end CodeRange
end Text
end Fifo
