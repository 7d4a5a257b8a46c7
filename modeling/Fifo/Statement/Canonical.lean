import Fifo.Statement.Keyword

/-!
# Canonical text

One way to write every statement: the keyword, a space, the argument, and a space that closes the
line.
-/

namespace Fifo
namespace Literal

/-- Writes the inside of a quoted text: a line feed is a backslash and an n. -/
def escape : List Char → List Char
  | [] => []
  | c :: cs => if c = '\n' then '\\' :: 'n' :: escape cs else c :: escape cs

/-- Writes a literal: an integer in decimal, a text between quotation marks. -/
def write : Value → String
  | .integer n => Decimal.ofInt64 n
  | .text s => "\"" ++ String.ofList (escape s.toList) ++ "\""

end Literal

namespace Statement

def keyword : Statement → Keyword
  | act a => .act a
  | goto _ => .goto
  | branch relation _ => .branch relation
  | push _ => .push
  | print _ => .print
  | read _ => .read

def argument : Statement → String
  | act _ => ""
  | goto target => target.render
  | branch _ target => target.render
  | push literal => Literal.write literal
  | print literal => (literal.map Literal.write).getD ""
  | read prompt => (prompt.map Literal.write).getD ""

def canonical (s : Statement) : String :=
  s.keyword.spelling ++ " " ++ s.argument ++ " "

end Statement
end Fifo
