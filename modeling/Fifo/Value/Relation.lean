import Fifo.Value

/-!
# Relations

The four comparisons of the conditional jumps. They compare integers only.
-/

namespace Fifo

/-- The relations that two integers can be tested for. -/
inductive Relation where
  | equal
  | notEqual
  | less
  | greater
  deriving DecidableEq

namespace Relation

def symbol : Relation → String
  | equal => "=="
  | notEqual => "!="
  | less => "<"
  | greater => ">"

def all : List Relation :=
  [equal, notEqual, less, greater]

/-- The relation with a given sign. -/
def ofSymbol (s : String) : Except Fault Relation :=
  match all.find? (·.symbol == s) with
  | some r => .ok r
  | none => .error (.because .unspecifiedComparison s)

/-- Does the relation hold between two integers? -/
def holds (l r : Int64) : Relation → Bool
  | equal => l == r
  | notEqual => l != r
  | less => l < r
  | greater => r < l

/-- Tests two values, which must both be integers. -/
def test (rel : Relation) (l r : Value) : Except Fault Bool :=
  match l.toInteger, r.toInteger with
  | .ok a, .ok b => .ok (rel.holds a b)
  | .error f, _ => .error f
  | _, .error f => .error f

@[simp] theorem ofSymbol_symbol (r : Relation) : ofSymbol r.symbol = .ok r := by
  cases r <;> rfl

end Relation
end Fifo
