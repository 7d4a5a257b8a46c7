import Fifo.Text.Unprintable

/-!
# Quoted texts

A text between quotation marks in which every character can be seen: the marks and backslashes have
a backslash before them, common controls have letters, and other characters that would not show are
written by code point.
-/

namespace Fifo
namespace Text

/-- A number in hexadecimal, in small letters. -/
def hex (n : Nat) : String :=
  String.ofList (Nat.toDigits 16 n)

def quoteChar (c : Char) : String :=
  if c = '"' then "\\\""
  else if c = '\\' then "\\\\"
  else if c = '\n' then "\\n"
  else if c = '\r' then "\\r"
  else if c = '\t' then "\\t"
  else if c.toNat = 0 then "\\0"
  else if isUnprintable c then "\\u\x7b" ++ hex c.toNat ++ "\x7d"
  else String.singleton c

def quoted (s : String) : String :=
  "\"" ++ String.join (s.toList.map quoteChar) ++ "\""

end Text
end Fifo
