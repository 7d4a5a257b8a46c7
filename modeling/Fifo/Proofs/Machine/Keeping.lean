import Fifo.Machine.Memory

/-!
# Keeping the operands

Arithmetic that keeps its operands looks at the two values in front; arithmetic that consumes them
takes both before it computes.  On a queue with two values or more, looking shows what taking gives
(`Memory.combine_cases`), so the two compute the same, succeed or fail together, and leave queues
that differ by the two operands alone.

Keeping has a second description, by the operations of a queue that can only be taken from: the
first operand is taken, the second one looked at, the result put at the back, and the first operand
put back in front (`Memory.combineInTurn`).  That is the same.
-/

namespace Fifo
namespace Queue

variable {α : Type}

/-- Puts a value back in front. -/
def putBack (q : Queue α) (a : α) : Queue α :=
  refill (a :: q.front) q.back

@[simp] theorem toList_putBack (q : Queue α) (a : α) : (q.putBack a).toList = a :: q.toList := by
  rw [putBack, toList_refill]
  rfl

end Queue

namespace Memory

/-- Takes the first operand and looks at the second one, puts their combination at the back, and
puts the first operand back in front, whatever has come of it. -/
def combineInTurn (op : Operation) (m : Memory) : Memory × Except Fault Outcome :=
  match m.queue.pop with
  | (.error f, rest) => ({ m with queue := rest }, .error f)
  | (.ok a, rest) =>
      match rest.first with
      | .error f => ({ m with queue := rest.putBack a }, .error f)
      | .ok b =>
          match op.apply a b with
          | .error f => ({ m with queue := rest.putBack a }, .error f)
          | .ok v => ({ m with queue := (rest.push v).putBack a }, .ok .next)

/-- How arithmetic on a memory ends where it consumes its operands, and where it keeps them. -/
structure Agree (op : Operation) (m : Memory) (consumed kept : Memory × Except Fault Outcome) :
    Prop where
  /-- They succeed or fail together, and with the same fault. -/
  result_eq : kept.2 = consumed.2
  /-- Whether they succeed or fail, they leave the same but for the operands. -/
  queue_eq : 2 ≤ m.queue.length → consumed.1.queue.toList = kept.1.queue.toList.drop 2
  /-- Where they succeed, the result follows all that was there before. -/
  queue_of_ok : ∀ outcome, kept.2 = .ok outcome → ∃ a b tail v,
    m.queue.toList = a :: b :: tail ∧ op.apply a b = .ok v ∧
      kept.1.queue.toList = m.queue.toList ++ [v] ∧
      kept.1.queue.length = consumed.1.queue.length + 2
  /-- Without two values, they fail and leave everything as it was. -/
  unchanged : m.queue.length < 2 →
    kept.2 = .error Queue.underflow ∧ consumed.1 = m ∧ kept.1 = m

theorem agree_combine (op : Operation) (m : Memory) :
    Agree op m (m.combine op) (m.combineKeeping op) := by
  have htwo : ∀ {a b : Value} {rest : Queue Value}, m.queue.toList = a :: b :: rest.toList →
      2 ≤ m.queue.length := by
    intro a b rest hlist
    rw [← Queue.length_toList, hlist, List.length_cons, List.length_cons]
    omega
  rcases m.combine_cases op with ⟨hshort, htaken, hkept⟩ | ⟨a, b, rest, hlist,
    ⟨f, -, htaken, hkept⟩ | ⟨v, hvalue, htaken, hkept⟩⟩
  · -- There are no two operands.
    rw [htaken, hkept]
    refine ⟨rfl, fun hlong => ?_, fun outcome hok => ?_, fun _ => ⟨rfl, rfl, rfl⟩⟩
    · omega
    · cases hok
  · -- The operands do not fit.
    have hlong := htwo hlist
    rw [htaken, hkept]
    refine ⟨rfl, fun _ => ?_, fun outcome hok => ?_, fun hshort => ?_⟩
    · rw [hlist]
      rfl
    · cases hok
    · omega
  · have hlong := htwo hlist
    rw [htaken, hkept]
    refine ⟨rfl, fun _ => ?_, fun outcome _ => ?_, fun hshort => ?_⟩
    · rw [Queue.toList_push, Queue.toList_push, hlist]
      rfl
    · refine ⟨a, b, rest.toList, v, hlist, hvalue, Queue.toList_push _ v, ?_⟩
      rw [← Queue.length_toList, ← Queue.length_toList, Queue.toList_push, Queue.toList_push,
        hlist]
      simp
    · omega

/-- The second of two ways to end shows the same as the first: the same values in the same order,
the same supply of random words and the same result. -/
structure Alike (done done' : Memory × Except Fault Outcome) : Prop where
  queue_eq : done'.1.queue.toList = done.1.queue.toList
  supply_eq : done'.1.supply = done.1.supply
  result_eq : done'.2 = done.2

/-- Taking the first operand for a while is the same as leaving it in place. -/
theorem alike_combineInTurn (op : Operation) (m : Memory) :
    Alike (m.combineKeeping op) (m.combineInTurn op) := by
  rw [combineKeeping, combineInTurn, Queue.firstTwo_eq]
  cases hlist : m.queue.toList with
  | nil =>
      rw [Queue.pop_of_nil hlist]
      exact ⟨rfl, rfl, rfl⟩
  | cons a behind =>
      obtain ⟨rest, hpop, hrest⟩ := Queue.pop_of_cons hlist
      rw [hpop]
      cases behind with
      | nil =>
          simp only [Queue.first_eq, hrest]
          exact ⟨by rw [Queue.toList_putBack, hrest, hlist], rfl, rfl⟩
      | cons b tail =>
          simp only [Queue.first_eq, hrest]
          cases hvalue : op.apply a b with
          | error f => exact ⟨by rw [Queue.toList_putBack, hrest, hlist], rfl, rfl⟩
          | ok v =>
              refine ⟨?_, rfl, rfl⟩
              rw [Queue.toList_putBack, Queue.toList_push, Queue.toList_push, hrest, hlist]
              rfl

/-- **Keeping the operands changes nothing else.**  On every queue, arithmetic that keeps its
operands succeeds or fails as arithmetic that consumes them does, and with the same fault.  With two
values or more, the queue that the latter leaves is that of the former without its first two values;
if they succeed, the former has put the result behind all values that were there, and its queue is
longer by two.  With fewer values both fail and leave everything as it was.  Keeping the operands is
the same as taking the first one, looking at the second one, and putting the first one back in the
end. -/
theorem keeping_agrees_with_consuming (p : Program) (op : Operation) (m : Memory) :
    Agree op m (m.perform p (.act (.combine op .consumed)))
      (m.perform p (.act (.combine op .kept))) ∧
    Alike (m.perform p (.act (.combine op .kept))) (m.combineInTurn op) := by
  exact ⟨agree_combine op m, alike_combineInTurn op m⟩

/-- Two numbers and nothing else. -/
def pair : Memory :=
  ⟨.ofList [.integer 7, .integer (-2)], .seeded (.ofSeed 0)⟩

theorem keeping_agrees_with_consuming_pair :
    2 ≤ pair.queue.length ∧
      (pair.perform .empty (.act (.combine .quotient .kept))).1.queue.toList =
        [.integer 7, .integer (-2), .integer (-3)] ∧
      (pair.perform .empty (.act (.combine .quotient .consumed))).1.queue.toList =
        [.integer (-3)] := by
  have hagree := (keeping_agrees_with_consuming .empty .quotient pair).1
  have hkept : (pair.perform .empty (.act (.combine .quotient .kept))).1.queue.toList =
      [.integer 7, .integer (-2), .integer (-3)] := by decide
  refine ⟨by decide, hkept, ?_⟩
  rw [hagree.queue_eq (by decide), hkept]
  rfl

end Memory
end Fifo
