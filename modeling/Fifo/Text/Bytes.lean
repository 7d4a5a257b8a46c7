/-!
# Bytes of a text

Texts are stored, measured and ordered by their UTF-8 form.
-/

namespace Fifo

/-- A sequence of bytes, such as the content of a file. -/
abbrev Bytes := List UInt8

namespace Text

def bytes (s : String) : Bytes :=
  s.toList.flatMap String.utf8EncodeChar

/-- The number of bytes that characters take in UTF-8. -/
def byteLength (cs : List Char) : Nat :=
  cs.foldr (fun c n => c.utf8Size + n) 0

/-- The text with these UTF-8 bytes, if there is one. -/
def ofBytes? (bs : Bytes) : Option String :=
  String.fromUTF8? ⟨bs.toArray⟩

theorem length_bytes (s : String) : (bytes s).length = byteLength s.toList := by
  rw [bytes, byteLength]
  induction s.toList with
  | nil => rfl
  | cons c cs ih => simp [ih]

end Text
end Fifo
