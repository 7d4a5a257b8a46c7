import Fifo.Text.Blank
import Fifo.Text.Trim

/-!
# Phrases

A line of text as a keyword and the argument behind it, before either is given a meaning. Blanks
around the two parts do not count; blanks inside the argument do.
-/

namespace Fifo

/-- The two parts of an instruction: a first word, and the rest, which may be empty. -/
structure Phrase where
  keyword : String
  argument : String
  deriving DecidableEq

namespace Phrase

/-- The phrase of a text without blanks at its ends. -/
def ofTrimmed (cs : List Char) : Phrase where
  keyword := String.ofList (cs.takeWhile (!Text.isBlank ·))
  argument := String.ofList ((cs.dropWhile (!Text.isBlank ·)).dropWhile Text.isBlank)

/-- The phrase of a text; a blank text has none. -/
def ofString? (s : String) : Option Phrase :=
  let cs := Text.trim Text.isBlank s.toList
  if cs.isEmpty then none else some (ofTrimmed cs)

end Phrase
end Fifo
