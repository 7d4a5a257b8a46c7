import Fifo.Fault
import Fifo.Text.Blank
import Fifo.Text.Bytes
import Fifo.Text.Trim

/-!
# Rows of bytes

Program files and the user's input are bytes, cut into rows that end with a line feed; the last row
may lack it. A row of a program file loses its line feed and one carriage return before that; a row
of input loses all line ends at its end.
-/

namespace Fifo
namespace Source

def lineFeed : UInt8 := 10

def carriageReturn : UInt8 := 13

/-- Puts a byte in front of rows: a line feed is a row of its own, any other byte begins the first
row. -/
def addByte (b : UInt8) (rows : List Bytes) : List Bytes :=
  if b = lineFeed then [b] :: rows
  else match rows with
    | [] => [[b]]
    | row :: rest => (b :: row) :: rest

/-- Cuts bytes into rows, behind each line feed. -/
def rows (bs : Bytes) : List Bytes :=
  bs.foldr addByte []

/-- Drops the line feed at the end of a row, and one carriage return before it. -/
def chomp (row : Bytes) : Bytes :=
  match row.reverse with
  | [] => row
  | b :: rest =>
      if b = lineFeed then
        match rest with
        | [] => []
        | c :: rest' => if c = carriageReturn then rest'.reverse else (c :: rest').reverse
      else row

/-- The fault of bytes that are no text. -/
def notText : Fault :=
  .because .internalError "stream did not contain valid UTF-8"

def decode (bs : Bytes) : Except Fault String :=
  match Text.ofBytes? bs with
  | some s => .ok s
  | none => .error notText

/-- The lines of a program file. -/
def lines (content : Bytes) : Except Fault (List String) :=
  (rows content).mapM fun row => decode (chomp row)

/-- The line that a row of input stands for. -/
def reply (row : Bytes) : Except Fault String :=
  (decode row).map fun s => String.ofList (Text.dropEndWhile Text.isLineEnd s.toList)

@[simp] theorem rows_nil : rows [] = [] := rfl

@[simp] theorem rows_cons (b : UInt8) (bs : Bytes) : rows (b :: bs) = addByte b (rows bs) := rfl

/-- Cutting into rows loses nothing. -/
theorem flatten_rows (bs : Bytes) : (rows bs).flatten = bs := by
  induction bs with
  | nil => rfl
  | cons b bs ih =>
      rw [rows_cons]
      unfold addByte
      split
      · simp [ih]
      · cases hr : rows bs with
        | nil => simpa [hr] using ih
        | cons row rest => simpa [hr] using ih

end Source
end Fifo
