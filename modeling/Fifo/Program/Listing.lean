import Fifo.Program

/-!
# Listings

A program with its lines numbered from 0. The numbers stand right-aligned in a column as wide as the
last of them.
-/

namespace Fifo
namespace Program

/-- A number, right-aligned in a column. -/
def cell (width n : Nat) : List Char :=
  let ds := Decimal.digits n
  List.replicate (width - ds.length) ' ' ++ ds

/-- The width of the column of numbers in a listing of `count` lines. -/
def columnWidth (count : Nat) : Nat :=
  (Decimal.digits (count - 1)).length

/-- One row of a listing: the number, a space, the line and a line feed. -/
def row (width address : Nat) (l : Line) : String :=
  String.ofList (cell width address) ++ " " ++ l.text ++ "\n"

/-- The rows of a listing. -/
def rows (p : Program) : List String :=
  p.lines.toList.mapIdx (row (columnWidth p.size))

/-- The listing of a program. -/
def listing (p : Program) : String :=
  String.join p.rows

end Program
end Fifo
