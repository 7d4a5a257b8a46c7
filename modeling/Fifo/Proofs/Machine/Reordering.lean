import Fifo.Proofs.Random.Positions
import Fifo.Proofs.Value.Order

/-!
# Reordering the queue

Sorting and shuffling move values and do nothing else (`reorder_perm`), so whatever has been sorted
and shuffled before, the next sort gives what it would have given at first (`queue_sort_reorder`).

To sort downward is to sort upward and then to turn the integers around among themselves, and the
texts among themselves (`sort_descending`).  It is no plain reversal, since the integers stay in
front.
-/

namespace Fifo

namespace Value

/-- Values of one kind stand to each other downward as they do upward the other way round. -/
theorem order_descending {l r : Value} (h : l.isInteger = r.isInteger) :
    order .descending l r = order .ascending r l := by
  cases l with
  | integer a =>
      cases r with
      | integer b => exact Std.OrientedCmp.eq_swap.symm
      | text t => cases h
  | text s =>
      cases r with
      | integer b => cases h
      | text t => exact Std.OrientedCmp.eq_swap.symm

/-- Values of one kind that are in order upward are in order downward when they are turned around.
-/
theorem InOrder.reverse {vs : List Value} {kind : Bool} (h : InOrder .ascending vs)
    (hkind : ∀ v ∈ vs, v.isInteger = kind) : InOrder .descending vs.reverse := by
  refine List.pairwise_reverse.mpr (List.Pairwise.imp_of_mem ?_ h)
  intro l r hl hr hle
  rw [order_descending ((hkind r hr).trans (hkind l hl).symm)]
  exact hle

theorem InOrder.filter {d : Direction} {vs : List Value} (h : InOrder d vs) (p : Value → Bool) :
    InOrder d (vs.filter p) :=
  List.Pairwise.filter p h

/-- An integer stands before a text in both directions. -/
theorem order_ne_gt_of_kinds {d : Direction} {l r : Value} (hl : l.isInteger = true)
    (hr : r.isInteger = false) : order d l r ≠ .gt := by
  cases l with
  | integer a =>
      cases r with
      | integer b => cases hr
      | text t => exact Ordering.noConfusion
  | text s => cases hl

theorem integers_append_texts_perm (vs : List Value) : (integers vs ++ texts vs).Perm vs :=
  List.filter_append_perm isInteger vs

/-- Downward come the integers and then the texts, each as they come upward but turned around. -/
theorem sort_descending (vs : List Value) :
    sort .descending vs =
      (integers (sort .ascending vs)).reverse ++ (texts (sort .ascending vs)).reverse := by
  have hup := inOrder_sort .ascending vs
  refine sort_eq_of_inOrder ?_ ?_
  · refine List.pairwise_append.mpr ⟨?_, ?_, ?_⟩
    · exact (hup.filter _).reverse fun v => isInteger_of_mem_integers
    · exact (hup.filter _).reverse fun v => isInteger_of_mem_texts
    · intro l hl r hr
      exact order_ne_gt_of_kinds (isInteger_of_mem_integers (List.mem_reverse.mp hl))
        (isInteger_of_mem_texts (List.mem_reverse.mp hr))
  · calc
      ((integers (sort .ascending vs)).reverse ++ (texts (sort .ascending vs)).reverse).Perm
          (integers (sort .ascending vs) ++ texts (sort .ascending vs)) :=
        (List.reverse_perm _).append (List.reverse_perm _)
      List.Perm _ (sort .ascending vs) := integers_append_texts_perm _
      List.Perm _ vs := sort_perm .ascending vs

/-- Where all values are of one kind, downward is upward turned around. -/
theorem sort_descending_of_kind {vs : List Value} {kind : Bool}
    (hkind : ∀ v ∈ vs, v.isInteger = kind) :
    sort .descending vs = (sort .ascending vs).reverse := by
  have hsorted : ∀ v ∈ sort .ascending vs, v.isInteger = kind :=
    fun v hv => hkind v ((sort_perm .ascending vs).mem_iff.mp hv)
  refine sort_eq_of_inOrder ((inOrder_sort .ascending vs).reverse hsorted) ?_
  exact (List.reverse_perm _).trans (sort_perm .ascending vs)

end Value

theorem Queue.toList_shuffle_perm {α : Type} (g : Random.Generator) (q : Queue α) :
    (q.shuffle g).1.toList.Perm q.toList := by
  unfold shuffle
  split
  · next vs g' hshuffle =>
      rw [toList_ofList]
      exact Random.perm_of_shuffle? hshuffle
  · exact List.Perm.refl _

/-- A way to move the values of a queue.  A shuffle may find any generator, with any words still to
come. -/
inductive Reordering where
  | sort (direction : Direction)
  | shuffle (generator : Random.Generator)

namespace Memory

def reorder (m : Memory) : Reordering → Memory
  | .sort direction => (m.sort direction).1
  | .shuffle generator => { m with supply := .seeded generator }.shuffle.1

/-- Sorting and shuffling move values and do nothing else. -/
theorem reorder_perm (m : Memory) (r : Reordering) :
    (m.reorder r).queue.toList.Perm m.queue.toList := by
  cases r with
  | sort direction =>
      rw [reorder, toList_sort]
      exact Value.sort_perm direction _
  | shuffle generator => exact Queue.toList_shuffle_perm generator m.queue

theorem foldl_reorder_perm (m : Memory) (before : List Reordering) :
    (before.foldl reorder m).queue.toList.Perm m.queue.toList := by
  induction before generalizing m with
  | nil => exact List.Perm.refl _
  | cons r before ih => exact (ih (m.reorder r)).trans (m.reorder_perm r)

/-- Whatever has been moved before, a sort gives what it would have given at first. -/
theorem queue_sort_reorder (m : Memory) (before : List Reordering) (d : Direction) :
    ((before.foldl reorder m).sort d).1.queue = (m.sort d).1.queue :=
  queue_sort_of_perm (m.foldl_reorder_perm before)

theorem sort_sort (m : Memory) (d : Direction) : (m.sort d).1.sort d = m.sort d := by
  have hqueue : ((m.sort d).1.sort d).1.queue = (m.sort d).1.queue :=
    m.queue_sort_reorder [.sort d] d
  exact congrArg (fun q => (Memory.mk q m.supply, Except.ok Outcome.next)) hqueue

/-- **The last sort decides.**  Downward, a queue holds the integers that it holds upward, turned
around, and then the texts turned around; so it is turned around as a whole if all of its values are
integers, or all are texts.  After any number of sorts and shuffles, with any generators, a sort
leaves the queue that it would have left without them.  To sort twice is to sort once. -/
theorem last_sort_decides :
    (∀ m : Memory,
      (m.sort .descending).1.queue.toList =
        (Value.integers (m.sort .ascending).1.queue.toList).reverse ++
          (Value.texts (m.sort .ascending).1.queue.toList).reverse ∧
      ((∀ v ∈ m.queue.toList, v.isInteger = true) ∨ (∀ v ∈ m.queue.toList, v.isInteger = false) →
        (m.sort .descending).1.queue.toList = (m.sort .ascending).1.queue.toList.reverse)) ∧
    (∀ (m : Memory) (before : List Reordering) (d : Direction),
      ((before.foldl reorder m).sort d).1.queue = (m.sort d).1.queue) ∧
    ∀ (m : Memory) (d : Direction), (m.sort d).1.sort d = m.sort d := by
  refine ⟨fun m => ⟨?_, ?_⟩, queue_sort_reorder, sort_sort⟩
  · rw [toList_sort, toList_sort]
    exact Value.sort_descending m.queue.toList
  · intro hkind
    rw [toList_sort, toList_sort]
    rcases hkind with hintegers | htexts
    · exact Value.sort_descending_of_kind hintegers
    · exact Value.sort_descending_of_kind htexts

/-- A queue of integers, one of them twice. -/
def scattered : Memory :=
  ⟨.ofList [.integer 3, .integer (-1), .integer 2, .integer 2], .seeded (.ofSeed 7)⟩

theorem last_sort_decides_scattered :
    (scattered.sort .ascending).1.queue.toList =
        [.integer (-1), .integer 2, .integer 2, .integer 3] ∧
      (scattered.sort .descending).1.queue.toList =
        [.integer 3, .integer 2, .integer 2, .integer (-1)] ∧
      (([.shuffle (.ofSeed 1), .sort .descending,
        .shuffle ⟨Random.Key.ofSeed 4, 3, [9, 9, 9]⟩].foldl reorder scattered).sort
          .ascending).1.queue.toList = [.integer (-1), .integer 2, .integer 2, .integer 3] := by
  obtain ⟨hdown, hlast, -⟩ := last_sort_decides
  have hup : (scattered.sort .ascending).1.queue.toList =
      [.integer (-1), .integer 2, .integer 2, .integer 3] := by
    rw [toList_sort]
    exact Value.sort_eq_of_inOrder (by decide) (by decide)
  refine ⟨hup, ?_, ?_⟩
  · rw [(hdown scattered).2 (.inl (by decide)), hup]
    rfl
  · rw [hlast scattered _ .ascending, hup]

end Memory
end Fifo
