import Fifo.Queue
import Fifo.Text.Quoted
import Fifo.Value

/-!
# Showing queues

The text of a queue for a developer: the kind of each value, and texts quoted.
-/

namespace Fifo

/-- The text of a value with its kind. -/
def Value.debugText : Value → String
  | integer n => "Integer(" ++ Decimal.ofInt64 n ++ ")"
  | text s => "String(" ++ Text.quoted s ++ ")"

/-- The text of a queue, front to back. -/
def Queue.debugText (q : Queue Value) : String :=
  "[" ++ String.intercalate ", " (q.toList.map Value.debugText) ++ "]"

end Fifo
