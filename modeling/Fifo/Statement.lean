import Fifo.Value.Arithmetic
import Fifo.Value.Order
import Fifo.Value.Relation

/-!
# Statements

What a line of a program can ask for. Statements that take no argument are actions on the queue;
the others jump, push, print or read.
-/

namespace Fifo

/-- What becomes of the two operands of an operation. -/
inductive Operands where
  | consumed
  | kept
  deriving DecidableEq

/-- What is printed after a value. -/
inductive Ending where
  | none
  | newline
  deriving DecidableEq

/-- The statements without an argument. -/
inductive Action where
  /-- Combines the two values in front and puts the result at the back. -/
  | combine (op : Operation) (operands : Operands)
  | nothing
  | peek (ending : Ending)
  /-- Takes the value in front and prints it. -/
  | pop (ending : Ending)
  /-- Takes all values and prints them, front to back. -/
  | popAll (ending : Ending)
  /-- Prints all values in one row and keeps them. -/
  | display
  /-- Puts all values into random order. -/
  | shuffle
  | sort (direction : Direction)
  /-- Takes the value in front and ends the program with it. -/
  | exit
  deriving DecidableEq

/-- Where a jump goes: to a line by number, or to a label. -/
inductive Target where
  | line (n : Int64)
  | label (name : String)
  deriving DecidableEq

/-- What a line of a program asks for. -/
inductive Statement where
  | act (a : Action)
  | goto (target : Target)
  /-- Jumps if the two values in front are in a relation. -/
  | branch (relation : Relation) (target : Target)
  /-- Puts a value at the back. -/
  | push (literal : Value)
  /-- Prints a literal and a line feed. -/
  | print (literal : Option Value)
  /-- Asks the user for a line, showing a prompt. -/
  | read (prompt : Option Value)
  deriving DecidableEq

namespace Ending

/-- The text that an ending adds. -/
def text : Ending → String
  | none => ""
  | newline => "\n"

end Ending

namespace Target

def render : Target → String
  | line n => Decimal.ofInt64 n
  | label name => name

end Target
end Fifo
