/-!
# Blanks and line ends

The three characters that separate the parts of a source line, and the two that end a line. A
carriage return is both: inside a line it only separates.
-/

namespace Fifo
namespace Text

/-- Space, tab and carriage return separate the parts of a line. -/
def isBlank (c : Char) : Bool :=
  c == ' ' || c == '\t' || c == '\r'

/-- Carriage return and line feed end a line. -/
def isLineEnd (c : Char) : Bool :=
  c == '\r' || c == '\n'

end Text
end Fifo
