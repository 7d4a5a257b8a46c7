import Fifo.Line
import Fifo.Statement

/-!
# Labels

The names that a program declares and the lines they stand for. The table is made in one pass over
the program before anything runs: a line with a single bar stops the pass, and a name declared
twice stands for its last line.

The view of a table is `Labels.get?`.
-/

namespace Fifo

/-- Names with the lines they stand for, each name once. -/
structure Labels where
  entries : List (String × Nat)
  deriving DecidableEq

namespace Labels

/-- The table without names. -/
def empty : Labels :=
  ⟨[]⟩

/-- The line that a name stands for. -/
def get? (t : Labels) (name : String) : Option Nat :=
  t.entries.lookup name

/-- Lets a name stand for a line, whatever it stood for before. -/
def insert (t : Labels) (name : String) (address : Nat) : Labels :=
  ⟨(name, address) :: t.entries.filter (·.1 != name)⟩

/-- The number of names. -/
def size (t : Labels) : Nat :=
  t.entries.length

/-- Enters the labels of lines into a table, the first line having the number `address`. -/
def scanFrom (address : Nat) (t : Labels) : List Line → Except Fault Labels
  | [] => .ok t
  | l :: ls => match l.label address with
    | .error f => .error f
    | .ok none => scanFrom (address + 1) t ls
    | .ok (some name) => scanFrom (address + 1) (t.insert name address) ls

/-- The labels of a program's lines. -/
def scan (lines : List Line) : Except Fault Labels :=
  scanFrom 0 empty lines

/-- The line that a jump goes to, in a program of `count` lines. -/
def resolve (t : Labels) (count : Nat) : Target → Except Fault Nat
  | .line n =>
      if 0 ≤ n.toInt ∧ n.toInt < count then .ok n.toInt.toNat
      else .error (.because .invalidJumpTarget (Decimal.ofInt64 n))
  | .label name => match t.get? name with
    | some address => .ok address
    | none => .error (.because .unresolvedJumpTarget name)

instance : Inhabited Labels := ⟨empty⟩

@[simp] theorem get?_empty (name : String) : empty.get? name = none := rfl

private theorem lookup_filter_ne (es : List (String × Nat)) {a b : String} (h : b ≠ a) :
    (es.filter (·.1 != a)).lookup b = es.lookup b := by
  induction es with
  | nil => rfl
  | cons e es ih =>
      obtain ⟨key, address⟩ := e
      by_cases hkey : key = a
      · have hb : (b == key) = false := by simpa [hkey] using h
        simp [hkey, List.lookup_cons, ih, beq_eq_false_iff_ne.mpr h]
      · by_cases hb : b = key
        · simp [hkey, hb]
        · simp [hkey, List.lookup_cons, beq_eq_false_iff_ne.mpr hb, ih]

/-- A name inserted stands for its new line, and every other name for what it stood for. -/
theorem get?_insert (t : Labels) (a b : String) (address : Nat) :
    (t.insert a address).get? b = if b = a then some address else t.get? b := by
  by_cases h : b = a
  · simp [insert, get?, h]
  · simp [insert, get?, h, List.lookup_cons, beq_eq_false_iff_ne.mpr h, lookup_filter_ne]

end Labels
end Fifo
