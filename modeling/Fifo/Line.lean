import Fifo.Fault
import Fifo.Text.Blank
import Fifo.Text.Bytes
import Fifo.Text.Trim

/-!
# Source lines

A line of source text, without what ended it. Lines that are blank or start with a bar do nothing
when they are reached; a line with exactly two bars declares the text between them as a label.
-/

namespace Fifo

/-- A line of source text, free of line ends at its end. -/
structure Line where
  text : String
  trimmed : Text.dropEndWhile Text.isLineEnd text.toList = text.toList
  deriving DecidableEq

namespace Line

/-- The line with a given text, from which all line ends at its end are dropped. -/
def ofString (s : String) : Line where
  text := String.ofList (Text.dropEndWhile Text.isLineEnd s.toList)
  trimmed := by simp

/-- The character that marks labels. -/
def bar : Char := '|'

def isBlank (l : Line) : Bool :=
  l.text.toList.all Text.isBlank

/-- Does the line start with a bar, blanks apart? -/
def isLabel (l : Line) : Bool :=
  (l.text.toList.dropWhile Text.isBlank).head? == some bar

def beforeBar (cs : List Char) : List Char :=
  cs.takeWhile (· != bar)

def afterBar (cs : List Char) : List Char :=
  (cs.dropWhile (· != bar)).drop 1

/-- The label that the line declares as line `number` of its program. Two bars declare the text
between them, a single bar is a fault, and any other number of bars declares nothing. -/
def label (number : Nat) (l : Line) : Except Fault (Option String) :=
  let cs := l.text.toList
  match cs.count bar with
  | 1 => .error (((Fault.of .singleDelimiter).inLine number).atColumn
      (Text.byteLength (beforeBar cs)))
  | 2 => .ok (some (String.ofList (beforeBar (afterBar cs))))
  | _ => .ok none

@[simp] theorem ofString_text (l : Line) : ofString l.text = l := by
  cases l with
  | mk text trimmed => simp [ofString, trimmed]

end Line
end Fifo
