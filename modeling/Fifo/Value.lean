import Fifo.Fault
import Fifo.Text.WhiteSpace

/-!
# Values

What the queue holds: a 64-bit integer or a text. The literals of the language are values too.
-/

namespace Fifo

/-- A 64-bit integer or a text. -/
inductive Value where
  | integer (n : Int64)
  | text (s : String)
  deriving DecidableEq

namespace Value

/-- The text of a value: an integer in decimal, a text as it is. -/
def render : Value → String
  | integer n => Decimal.ofInt64 n
  | text s => s

/-- The value of a line that a user typed: an integer if that is all there is but white space, and
otherwise the line as it was typed. -/
def ofReply (s : String) : Value :=
  match Decimal.int64? (Text.trimWhiteSpace s.toList) with
  | some n => integer n
  | none => text s

/-- The integer that a value is; a text is none. -/
def toInteger : Value → Except Fault Int64
  | integer n => .ok n
  | text _ => .error (.of .operationMismatch)

def isInteger : Value → Bool
  | integer _ => true
  | text _ => false

end Value
end Fifo
