import Fifo.Value

/-!
# Arithmetic

The five operations on two values. Integer results are taken modulo 2^64 into the signed range,
and quotients are cut toward zero. Only the sum is defined where a text takes part: it joins the
two texts.
-/

namespace Fifo

inductive Operation where
  | sum
  | difference
  | product
  | quotient
  | remainder
  deriving DecidableEq

namespace Operation

/-- The result on two integers; a zero divisor has none. -/
def onIntegers (l r : Int64) : Operation → Except Fault Int64
  | sum => .ok (l + r)
  | difference => .ok (l - r)
  | product => .ok (l * r)
  | quotient => if r = 0 then .error (.of .divisionByZero) else .ok (l / r)
  | remainder => if r = 0 then .error (.of .divisionByZero) else .ok (l % r)

/-- The result on two values of which at least one is a text. -/
def onTexts (l r : Value) : Operation → Except Fault Value
  | sum => .ok (.text (l.render ++ r.render))
  | _ => .error (.of .operationMismatch)

def apply (op : Operation) : Value → Value → Except Fault Value
  | .integer l, .integer r => (op.onIntegers l r).map .integer
  | l, r => op.onTexts l r

end Operation
end Fifo
