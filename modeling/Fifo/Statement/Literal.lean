import Fifo.Statement

/-!
# Literals and targets

The arguments of statements. A literal is a quoted text or a numeral; in a quoted text, a backslash
followed by the letter n stands for a line feed, and no other character is special. A target is a
numeral or else a label, whatever it looks like.
-/

namespace Fifo
namespace Literal

/-- The mark at both ends of a quoted text. -/
def quote : Char := '"'

/-- Reads the inside of a quoted text: each backslash with an n behind it is a line feed. -/
def unescape : List Char → List Char
  | '\\' :: 'n' :: cs => '\n' :: unescape cs
  | c :: cs => c :: unescape cs
  | [] => []

/-- Reads what follows an opening quotation mark, which must end with the closing one. -/
def quoted? (cs : List Char) : Option String :=
  if cs.getLast? = some quote then some (String.ofList (unescape cs.dropLast)) else none

def ofChars? : List Char → Option Value
  | c :: cs =>
      if c = quote then (quoted? cs).map .text else (Decimal.int64? (c :: cs)).map .integer
  | [] => none

def ofString? (s : String) : Option Value :=
  ofChars? s.toList

end Literal

namespace Target

/-- Reads a target: a numeral is a line, anything else a label. -/
def ofString (s : String) : Target :=
  match Decimal.int64? s.toList with
  | some n => line n
  | none => label s

end Target
end Fifo
