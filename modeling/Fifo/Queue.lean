import Fifo.Fault

/-!
# Queues

First in, first out: values enter at the back and leave from the front, and at most the two values
in front can be looked at in place.

A queue is kept as two lists, the values in front in order and the values behind them in reverse.
The list in front is refilled before it has fewer than two values, so what can be looked at or taken
is always there, and each value is moved from one list to the other at most once. The view of a
queue is `Queue.toList`, front to back; the lemmas say what each operation does to that view.
-/

namespace Fifo

/-- A queue of values, front to back. -/
structure Queue (α : Type) where
  front : List α
  back : List α
  ready : 2 ≤ front.length ∨ back = []

namespace Queue

variable {α : Type}

/-- The values of a queue, front to back. -/
def toList (q : Queue α) : List α :=
  q.front ++ q.back.reverse

/-- The queue with no values. -/
def empty : Queue α :=
  ⟨[], [], Or.inr rfl⟩

/-- The queue that holds the values of a list, the first in front. -/
def ofList (vs : List α) : Queue α :=
  ⟨vs, [], Or.inr rfl⟩

/-- Puts the two lists of a queue together, refilling the one in front if it is short. -/
def refill : List α → List α → Queue α
  | a :: b :: rest, back => ⟨a :: b :: rest, back, Or.inl (by simp)⟩
  | short, back => ofList (short ++ back.reverse)

/-- The number of values. -/
def length (q : Queue α) : Nat :=
  q.front.length + q.back.length

/-- Has the queue no values? -/
def isEmpty (q : Queue α) : Bool :=
  q.front.isEmpty

/-- Has the queue fewer than two values? -/
def isShort (q : Queue α) : Bool :=
  match q.front with
  | _ :: _ :: _ => false
  | _ => true

/-- Adds a value at the back. -/
def push (q : Queue α) (v : α) : Queue α :=
  refill q.front (v :: q.back)

/-- Adds the values of a list at the back, in order. -/
def append (q : Queue α) (vs : List α) : Queue α :=
  refill q.front (vs.reverse ++ q.back)

/-- The fault of an operation that needs more values than there are. -/
def underflow : Fault :=
  .of .notEnoughArguments

/-- Looks at the value in front. -/
def first (q : Queue α) : Except Fault α :=
  match q.front with
  | a :: _ => .ok a
  | [] => .error underflow

/-- Looks at the two values in front. -/
def firstTwo (q : Queue α) : Except Fault (α × α) :=
  match q.front with
  | a :: b :: _ => .ok (a, b)
  | _ => .error underflow

/-- Takes the value in front. The queue that is left is part of the result either way. -/
def pop (q : Queue α) : Except Fault α × Queue α :=
  match q.front with
  | a :: rest => (.ok a, refill rest q.back)
  | [] => (.error underflow, q)

/-- Takes the two values in front one after the other, if there are two. -/
def popTwo (q : Queue α) : Except Fault (α × α) × Queue α :=
  if q.isShort then (.error underflow, q)
  else match q.pop with
    | (.error f, rest) => (.error f, rest)
    | (.ok a, rest) => match rest.pop with
      | (.error f, rest) => (.error f, rest)
      | (.ok b, rest) => (.ok (a, b), rest)

/-- Takes all values, front to back. -/
def drain (q : Queue α) : List α × Queue α :=
  (q.toList, empty)

instance : Inhabited (Queue α) := ⟨empty⟩

@[simp] theorem toList_empty : (empty : Queue α).toList = [] := rfl

@[simp] theorem toList_ofList (vs : List α) : (ofList vs).toList = vs := by
  simp [ofList, toList]

@[simp] theorem toList_refill (front back : List α) :
    (refill front back).toList = front ++ back.reverse := by
  unfold refill
  split
  · rfl
  · exact toList_ofList _

@[simp] theorem toList_push (q : Queue α) (v : α) : (q.push v).toList = q.toList ++ [v] := by
  rw [push, toList_refill]
  simp [toList]

@[simp] theorem toList_append (q : Queue α) (vs : List α) :
    (q.append vs).toList = q.toList ++ vs := by
  rw [append, toList_refill]
  simp [toList]

@[simp] theorem length_toList (q : Queue α) : q.toList.length = q.length := by
  simp [toList, length]

/-- A list in front with fewer than two values is the whole queue. -/
theorem toList_eq_front (q : Queue α) (h : q.front.length < 2) : q.toList = q.front := by
  cases q.ready with
  | inl hready => omega
  | inr hback => simp [toList, hback]

/-- There is one queue without values. -/
theorem eq_empty_of_toList {q : Queue α} (h : q.toList = []) : q = empty := by
  obtain ⟨front, back, ready⟩ := q
  obtain ⟨hfront, hback⟩ := List.append_eq_nil_iff.mp h
  obtain rfl : front = [] := hfront
  obtain rfl : back = [] := List.reverse_eq_nil_iff.mp hback
  rfl

@[simp] theorem isEmpty_eq (q : Queue α) : q.isEmpty = q.toList.isEmpty := by
  cases hf : q.front with
  | nil => simp [isEmpty, toList_eq_front q (by simp [hf]), hf]
  | cons a rest => simp [isEmpty, toList, hf]

theorem isShort_iff (q : Queue α) : q.isShort = true ↔ q.length < 2 := by
  rw [← length_toList, isShort]
  split
  · next a b rest hfront => simp [toList, hfront]
  · next hfront =>
      match hlist : q.front with
      | [] => simp [toList_eq_front q (by simp [hlist]), hlist]
      | [a] => simp [toList_eq_front q (by simp [hlist]), hlist]
      | a :: b :: rest => exact absurd hlist (hfront a b rest)

/-- What looking at the value in front shows. -/
theorem first_eq (q : Queue α) :
    q.first = match q.toList with
      | a :: _ => .ok a
      | [] => .error underflow := by
  cases hf : q.front with
  | nil => simp [first, toList_eq_front q (by simp [hf]), hf]
  | cons a rest => simp [first, toList, hf]

/-- What looking at the two values in front shows. -/
theorem firstTwo_eq (q : Queue α) :
    q.firstTwo = match q.toList with
      | a :: b :: _ => .ok (a, b)
      | _ => .error underflow := by
  cases hf : q.front with
  | nil => simp [firstTwo, toList_eq_front q (by simp [hf]), hf]
  | cons a rest =>
      cases rest with
      | nil => simp [firstTwo, toList_eq_front q (by simp [hf]), hf]
      | cons b rest => simp [firstTwo, toList, hf]

/-- A queue has no value to take and stays as it is, or it gives the one in front of all that it
keeps. -/
theorem pop_cases (q : Queue α) :
    (q.toList = [] ∧ q.pop = (.error underflow, q)) ∨
    ∃ a rest, q.toList = a :: rest.toList ∧ q.pop = (.ok a, rest) := by
  cases hfront : q.front with
  | nil =>
      refine Or.inl ⟨?_, by simp [pop, hfront]⟩
      rw [toList_eq_front q (by simp [hfront]), hfront]
  | cons a rest =>
      refine Or.inr ⟨a, refill rest q.back, ?_, by simp [pop, hfront]⟩
      rw [toList_refill, toList, hfront]
      rfl

/-- A value that was taken stood in front of all that is left. -/
theorem toList_of_pop {q rest : Queue α} {a : α} (h : q.pop = (.ok a, rest)) :
    q.toList = a :: rest.toList := by
  rcases q.pop_cases with ⟨-, hpop⟩ | ⟨b, kept, hlist, hpop⟩
  · rw [hpop] at h
    cases h
  · rw [hpop] at h
    cases h
    exact hlist

/-- A queue with values gives the one in front and keeps the others. -/
theorem pop_of_cons {q : Queue α} {a : α} {tail : List α} (h : q.toList = a :: tail) :
    ∃ rest, q.pop = (.ok a, rest) ∧ rest.toList = tail := by
  rcases q.pop_cases with ⟨hnil, -⟩ | ⟨b, rest, hlist, hpop⟩
  · rw [hnil] at h
    cases h
  · rw [hlist] at h
    obtain ⟨rfl, rfl⟩ := List.cons.inj h
    exact ⟨rest, hpop, rfl⟩

theorem pop_of_nil {q : Queue α} (h : q.toList = []) : q.pop = (.error underflow, q) := by
  rcases q.pop_cases with ⟨-, hpop⟩ | ⟨a, rest, hlist, -⟩
  · exact hpop
  · rw [hlist] at h
    cases h

/-- A queue has too few values to take two of them and stays as it is, or it gives the two that it
shows, which are in front of all that it keeps. -/
theorem two_cases (q : Queue α) :
    (q.length < 2 ∧ q.popTwo = (.error underflow, q) ∧ q.firstTwo = .error underflow) ∨
    ∃ a b rest, q.toList = a :: b :: rest.toList ∧ q.popTwo = (.ok (a, b), rest) ∧
      q.firstTwo = .ok (a, b) := by
  simp only [popTwo, isShort_iff, firstTwo_eq, ← length_toList]
  match hlist : q.toList with
  | [] => exact Or.inl ⟨by simp, if_pos (by simp), rfl⟩
  | [a] => exact Or.inl ⟨by simp, if_pos (by simp), rfl⟩
  | a :: b :: tail =>
      obtain ⟨behind, hpop, hbehind⟩ := pop_of_cons hlist
      obtain ⟨rest, hpop', rfl⟩ := pop_of_cons hbehind
      refine Or.inr ⟨a, b, rest, rfl, ?_, rfl⟩
      rw [if_neg (by simp), hpop]
      simp only [hpop']

/-- Taking the value in front fails in one way, and takes nothing then. -/
theorem pop_of_error {q rest : Queue α} {f : Fault} (h : q.pop = (.error f, rest)) :
    q.toList = [] ∧ f = underflow ∧ rest = q := by
  rcases q.pop_cases with ⟨hnil, hpop⟩ | ⟨a, kept, -, hpop⟩
  · rw [hpop] at h
    cases h
    exact ⟨hnil, rfl, rfl⟩
  · rw [hpop] at h
    cases h

/-- Taking the two values in front fails in one way, and takes neither then. -/
theorem popTwo_of_error {q rest : Queue α} {f : Fault} (h : q.popTwo = (.error f, rest)) :
    q.length < 2 ∧ f = underflow ∧ rest = q := by
  rcases q.two_cases with ⟨hshort, hpop, -⟩ | ⟨a, b, kept, -, hpop, -⟩
  · rw [hpop] at h
    cases h
    exact ⟨hshort, rfl, rfl⟩
  · rw [hpop] at h
    cases h

end Queue
end Fifo
