import Fifo.Program
import Fifo.Queue
import Fifo.Random.Shuffle
import Fifo.Random.Supply

/-!
# Memory and statements

What a statement does to the queue and what it then asks of the machine. A statement that fails may
already have taken its operands: the memory it leaves is part of the result either way.
-/

namespace Fifo

/-- Shuffles a queue. A stream without accepted words leaves everything as it is. -/
def Queue.shuffle {α : Type} (g : Random.Generator) (q : Queue α) : Queue α × Random.Generator :=
  match Random.shuffle? g q.toList with
  | some (vs, g') => (.ofList vs, g')
  | none => (q, g)

/-- What a program works on: its queue, and the supply of words to shuffle it with. -/
structure Memory where
  queue : Queue Value
  supply : Random.Supply

/-- What a statement asks of the machine once it is done. -/
inductive Outcome where
  | next
  /-- Go on with the line at an address. -/
  | jump (address : Nat)
  /-- Print a text, which may be empty, and go on with the next line. -/
  | print (text : String)
  /-- Wait for a line from the user. -/
  | input (prompt : String)
  | exit (value : Int64)
  deriving DecidableEq

namespace Memory

/-- Takes the two values in front and puts their combination at the back. -/
def combine (op : Operation) (m : Memory) : Memory × Except Fault Outcome :=
  match m.queue.popTwo with
  | (.error f, rest) => ({ m with queue := rest }, .error f)
  | (.ok (a, b), rest) =>
      match op.apply a b with
      | .error f => ({ m with queue := rest }, .error f)
      | .ok v => ({ m with queue := rest.push v }, .ok .next)

/-- Puts the combination of the two values in front at the back, and leaves the two in place. -/
def combineKeeping (op : Operation) (m : Memory) : Memory × Except Fault Outcome :=
  match m.queue.firstTwo with
  | .error f => (m, .error f)
  | .ok (a, b) =>
      match op.apply a b with
      | .error f => (m, .error f)
      | .ok v => ({ m with queue := m.queue.push v }, .ok .next)

def peek (ending : Ending) (m : Memory) : Memory × Except Fault Outcome :=
  match m.queue.first with
  | .error f => (m, .error f)
  | .ok v => (m, .ok (.print (v.render ++ ending.text)))

def pop (ending : Ending) (m : Memory) : Memory × Except Fault Outcome :=
  match m.queue.pop with
  | (.error f, rest) => ({ m with queue := rest }, .error f)
  | (.ok v, rest) => ({ m with queue := rest }, .ok (.print (v.render ++ ending.text)))

def popAll (ending : Ending) (m : Memory) : Memory × Except Fault Outcome :=
  match m.queue.drain with
  | (vs, rest) =>
      ({ m with queue := rest },
        .ok (.print (String.join (vs.map fun v => v.render ++ ending.text))))

def display (m : Memory) : Memory × Except Fault Outcome :=
  (m, .ok (.print (String.intercalate ", " (m.queue.toList.map Value.render) ++ "\n")))

def shuffle (m : Memory) : Memory × Except Fault Outcome :=
  match m.queue.shuffle m.supply.next with
  | (queue, g) => (⟨queue, m.supply.behind g⟩, .ok .next)

def sort (direction : Direction) (m : Memory) : Memory × Except Fault Outcome :=
  ({ m with queue := .ofList (Value.sort direction m.queue.toList) }, .ok .next)

/-- Takes the value in front, which must be an integer, and ends the program with it. -/
def exit (m : Memory) : Memory × Except Fault Outcome :=
  match m.queue.pop with
  | (.error _, rest) => ({ m with queue := rest }, .error (.of .returnFromEmptyQueue))
  | (.ok (.integer n), rest) => ({ m with queue := rest }, .ok (.exit n))
  | (.ok (.text _), rest) => ({ m with queue := rest }, .error (.of .nonIntegerReturnValue))

def goto (p : Program) (target : Target) (m : Memory) : Memory × Except Fault Outcome :=
  (m, (p.resolve target).map .jump)

/-- Jumps if the two values in front are in a relation. The target must exist in any case. -/
def branch (p : Program) (relation : Relation) (target : Target) (m : Memory) :
    Memory × Except Fault Outcome :=
  match p.resolve target with
  | .error f => (m, .error f)
  | .ok address =>
      match m.queue.firstTwo with
      | .error f => (m, .error f)
      | .ok (a, b) =>
          (m, (relation.test a b).map fun holds => if holds then .jump address else .next)

def act (m : Memory) : Action → Memory × Except Fault Outcome
  | .combine op .consumed => m.combine op
  | .combine op .kept => m.combineKeeping op
  | .nothing => (m, .ok .next)
  | .peek ending => m.peek ending
  | .pop ending => m.pop ending
  | .popAll ending => m.popAll ending
  | .display => m.display
  | .shuffle => m.shuffle
  | .sort direction => m.sort direction
  | .exit => m.exit

def perform (p : Program) (m : Memory) : Statement → Memory × Except Fault Outcome
  | .act a => m.act a
  | .goto target => m.goto p target
  | .branch relation target => m.branch p relation target
  | .push literal => ({ m with queue := m.queue.push literal }, .ok .next)
  | .print literal => (m, .ok (.print ((literal.map Value.render).getD "" ++ "\n")))
  | .read prompt => (m, .ok (.input ((prompt.map Value.render).getD "")))

/-- Without two values, arithmetic fails and leaves everything as it is. With two it computes the
same whether it takes its operands or leaves them in place. -/
theorem combine_cases (op : Operation) (m : Memory) :
    (m.queue.length < 2 ∧ m.combine op = (m, .error Queue.underflow) ∧
      m.combineKeeping op = (m, .error Queue.underflow)) ∨
    ∃ a b rest, m.queue.toList = a :: b :: rest.toList ∧
      ((∃ f, op.apply a b = .error f ∧ m.combine op = ({ m with queue := rest }, .error f) ∧
          m.combineKeeping op = (m, .error f)) ∨
        ∃ v, op.apply a b = .ok v ∧ m.combine op = ({ m with queue := rest.push v }, .ok .next) ∧
          m.combineKeeping op = ({ m with queue := m.queue.push v }, .ok .next)) := by
  rw [combine, combineKeeping]
  rcases m.queue.two_cases with ⟨hshort, hpop, hfirst⟩ | ⟨a, b, rest, hlist, hpop, hfirst⟩
  · rw [hpop, hfirst]
    exact Or.inl ⟨hshort, rfl, rfl⟩
  · rw [hpop, hfirst]
    refine Or.inr ⟨a, b, rest, hlist, ?_⟩
    cases hvalue : op.apply a b with
    | error f => exact Or.inl ⟨f, rfl, by simp only [hvalue], by simp only [hvalue]⟩
    | ok v => exact Or.inr ⟨v, rfl, by simp only [hvalue], by simp only [hvalue]⟩

/-- What comes of arithmetic, whatever becomes of its operands. -/
theorem combine_result (op : Operation) (operands : Operands) (m : Memory) :
    (m.act (.combine op operands)).2 = .error Queue.underflow ∨
      ∃ a b, (m.act (.combine op operands)).2 = (op.apply a b).map fun _ => .next := by
  rcases m.combine_cases op with ⟨-, htaken, hkept⟩ | ⟨a, b, rest, -, ⟨f, hvalue, htaken, hkept⟩ |
    ⟨v, hvalue, htaken, hkept⟩⟩
  · cases operands <;> simp only [act, htaken, hkept, true_or]
  · refine Or.inr ⟨a, b, ?_⟩
    cases operands <;> simp only [act, htaken, hkept, hvalue, Except.map]
  · refine Or.inr ⟨a, b, ?_⟩
    cases operands <;> simp only [act, htaken, hkept, hvalue, Except.map]

end Memory
end Fifo
