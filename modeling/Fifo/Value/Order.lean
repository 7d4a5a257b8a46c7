import Fifo.Text.Bytes
import Fifo.Value

/-!
# Sorting values

Integers come before texts whichever way the queue is sorted. Integers are ordered by size and texts
by their UTF-8 bytes; the direction turns only the order inside each of the two kinds.
-/

namespace Fifo

inductive Direction where
  | ascending
  | descending
  deriving DecidableEq

namespace Direction

/-- Turns an ordering around where the direction asks for it. -/
def orient : Direction → Ordering → Ordering
  | ascending, o => o
  | descending, o => o.swap

end Direction

namespace Value

/-- How two values stand to each other when sorted in a direction. -/
def order (d : Direction) : Value → Value → Ordering
  | integer l, integer r => d.orient (compare l r)
  | text l, text r => d.orient (compare (Text.bytes l) (Text.bytes r))
  | integer _, text _ => .lt
  | text _, integer _ => .gt

/-- May the first value stand before the second? -/
def precedes (d : Direction) (l r : Value) : Bool :=
  (order d l r).isLE

/-- Sorts values in a direction; equal values keep their order. -/
def sort (d : Direction) (vs : List Value) : List Value :=
  vs.mergeSort (precedes d)

/-- Sorting moves values and does nothing else. -/
theorem sort_perm (d : Direction) (vs : List Value) : (sort d vs).Perm vs :=
  List.mergeSort_perm vs (precedes d)

end Value
end Fifo
