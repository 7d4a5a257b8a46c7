import Fifo.Text.CodeRange
import Fifo.Text.Trim

/-!
# White space

The characters with the Unicode property `White_Space`. Replies typed at a prompt are trimmed of
them before they are read as numbers; source lines know only the blanks of `Fifo.Text.Blank`.
-/

namespace Fifo
namespace Text

/-- The code points with the property `White_Space`. -/
def whiteSpace : List CodeRange :=
  [⟨0x9, 0xD⟩, ⟨0x20, 0x20⟩, ⟨0x85, 0x85⟩, ⟨0xA0, 0xA0⟩, ⟨0x1680, 0x1680⟩, ⟨0x2000, 0x200A⟩,
    ⟨0x2028, 0x2029⟩, ⟨0x202F, 0x202F⟩, ⟨0x205F, 0x205F⟩, ⟨0x3000, 0x3000⟩]

def isWhiteSpace (c : Char) : Bool :=
  CodeRange.anyContains whiteSpace c

/-- Every character of the built-in class is in the table. -/
theorem isWhiteSpace_of_isWhitespace {c : Char} (h : c.isWhitespace = true) :
    isWhiteSpace c = true := by
  simp only [Char.isWhitespace, Bool.or_eq_true, decide_eq_true_eq] at h
  rcases h with ((h | h) | h) | h <;> subst h <;> decide

/-- Drops white space from both ends. -/
def trimWhiteSpace (cs : List Char) : List Char :=
  trim isWhiteSpace cs

end Text
end Fifo
