import Fifo.Machine.Memory
import Fifo.Proofs.Source.Rows

/-!
# Sorted queues

In each direction the order of values is total, and two values that are equal in it are the same
value.  Turning the direction turns the order inside each kind of values and not between the kinds,
so neither direction is the reverse of the other, and the laws are shown for both.

Values can therefore be put in order in one way only (`eq_of_inOrder`).  Sorting finds that way, so
what it gives depends on the values that are there and not on how they stood before
(`sort_eq_of_inOrder`, `sort_eq_of_perm`).  Later facts about sorting follow from this and not from
how sorting is done.
-/

namespace Fifo

theorem Text.bytes_injective : Function.Injective Text.bytes := by
  intro s t h
  have hs := (Text.ofBytes?_eq_some_iff (Text.bytes s) s).mpr rfl
  have ht := (Text.ofBytes?_eq_some_iff (Text.bytes s) t).mpr h
  exact Option.some.inj (hs.symm.trans ht)

namespace Direction

variable {α : Type} {cmp : α → α → Ordering}

@[simp] theorem orient_eq_eq_iff (d : Direction) (o : Ordering) : d.orient o = .eq ↔ o = .eq := by
  cases d with
  | ascending => rfl
  | descending => exact Ordering.swap_eq_eq

theorem orient_swap [Std.OrientedCmp cmp] (d : Direction) (a b : α) :
    d.orient (cmp a b) = (d.orient (cmp b a)).swap := by
  have hswap : cmp a b = (cmp b a).swap := Std.OrientedCmp.eq_swap
  cases d with
  | ascending => exact hswap
  | descending => exact congrArg Ordering.swap hswap

theorem orient_trans [Std.TransCmp cmp] {d : Direction} {a b c : α}
    (hab : (d.orient (cmp a b)).isLE = true) (hbc : (d.orient (cmp b c)).isLE = true) :
    (d.orient (cmp a c)).isLE = true := by
  have hswap : ∀ x y : α, cmp x y = (cmp y x).swap := fun _ _ => Std.OrientedCmp.eq_swap
  have htrans : ∀ x y z : α, (cmp x y).isLE = true → (cmp y z).isLE = true →
      (cmp x z).isLE = true := fun _ _ _ => Std.TransCmp.isLE_trans
  cases d with
  | ascending => exact htrans a b c hab hbc
  | descending =>
      -- What is turned around is a comparison the other way round.
      simp only [orient, ← hswap] at hab hbc ⊢
      exact htrans c b a hbc hab

end Direction

namespace Value

/-- The values stand in the order of a direction: none is greater than one behind it. -/
def InOrder (d : Direction) (vs : List Value) : Prop :=
  vs.Pairwise fun l r => order d l r ≠ .gt

instance (d : Direction) (vs : List Value) : Decidable (InOrder d vs) :=
  inferInstanceAs (Decidable (List.Pairwise _ _))

/-- The integers of a list, in the order they have there. -/
def integers (vs : List Value) : List Value :=
  vs.filter isInteger

/-- The texts of a list, in the order they have there. -/
def texts (vs : List Value) : List Value :=
  vs.filter (!·.isInteger)

theorem isInteger_of_mem_integers {vs : List Value} {v : Value} (h : v ∈ integers vs) :
    v.isInteger = true :=
  (List.mem_filter.mp h).2

theorem isInteger_of_mem_texts {vs : List Value} {v : Value} (h : v ∈ texts vs) :
    v.isInteger = false := by
  simpa using (List.mem_filter.mp h).2

theorem integers_eq_nil {vs : List Value} (h : ∀ v ∈ vs, v.isInteger = false) :
    integers vs = [] :=
  List.filter_eq_nil_iff.mpr fun v hv => by simp [h v hv]

theorem texts_eq_self {vs : List Value} (h : ∀ v ∈ vs, v.isInteger = false) : texts vs = vs :=
  List.filter_eq_self.mpr fun v hv => by simp [h v hv]

theorem order_swap (d : Direction) (a b : Value) : order d a b = (order d b a).swap := by
  cases a with
  | integer l =>
      cases b with
      | integer r => exact d.orient_swap l r
      | text r => rfl
  | text l =>
      cases b with
      | integer r => rfl
      | text r => exact d.orient_swap (Text.bytes l) (Text.bytes r)

theorem order_eq_eq_iff (d : Direction) (a b : Value) : order d a b = .eq ↔ a = b := by
  cases a with
  | integer l =>
      cases b with
      | integer r => simp [order]
      | text r => simp [order]
  | text l =>
      cases b with
      | integer r => simp [order]
      | text r => simp [order, Text.bytes_injective.eq_iff]

theorem order_trans {d : Direction} {a b c : Value} (hab : (order d a b).isLE = true)
    (hbc : (order d b c).isLE = true) : (order d a c).isLE = true := by
  cases a with
  | integer l =>
      cases c with
      | text r => rfl
      | integer r =>
          cases b with
          | integer n => exact Direction.orient_trans hab hbc
          | text s => cases hbc
  | text l =>
      cases b with
      | integer n => cases hab
      | text s =>
          cases c with
          | integer r => cases hbc
          | text r => exact Direction.orient_trans hab hbc

instance (d : Direction) : Std.TransCmp (order d) where
  eq_swap := order_swap d _ _
  isLE_trans := order_trans

instance (d : Direction) : Std.LawfulEqCmp (order d) where
  compare_self := (order_eq_eq_iff d _ _).mpr rfl
  eq_of_compare := (order_eq_eq_iff d _ _).mp

theorem order_ne_gt_total (d : Direction) (a b : Value) :
    order d a b ≠ .gt ∨ order d b a ≠ .gt := by
  rw [order_swap d b a]
  cases order d a b <;> simp

theorem precedes_iff (d : Direction) (a b : Value) : precedes d a b = true ↔ order d a b ≠ .gt :=
  Ordering.isLE_iff_ne_gt

/-- Sorting puts values in order. -/
theorem inOrder_sort (d : Direction) (vs : List Value) : InOrder d (sort d vs) := by
  have htrans : ∀ a b c : Value, precedes d a b = true → precedes d b c = true →
      precedes d a c = true := fun a b c => order_trans
  have htotal : ∀ a b : Value, (precedes d a b || precedes d b a) = true := by
    intro a b
    rw [Bool.or_eq_true, precedes_iff, precedes_iff]
    exact order_ne_gt_total d a b
  refine (List.pairwise_mergeSort htrans htotal vs).imp ?_
  intro a b hab
  exact (precedes_iff d a b).mp hab

/-- Values can be put in order in one way only. -/
theorem eq_of_inOrder {d : Direction} {vs ws : List Value} (hvs : InOrder d vs)
    (hws : InOrder d ws) (hperm : vs.Perm ws) : vs = ws := by
  refine List.Perm.eq_of_pairwise ?_ hvs hws hperm
  intro a b _ _ hab hba
  have hequal : order d a b = .eq :=
    Std.OrientedCmp.isLE_antisymm (Ordering.isLE_iff_ne_gt.mpr hab)
      (Ordering.isLE_iff_ne_gt.mpr hba)
  exact Std.LawfulEqCmp.eq_of_compare hequal

/-- Whatever is in order and has the values of a list is that list sorted. -/
theorem sort_eq_of_inOrder {d : Direction} {vs ws : List Value} (hvs : InOrder d vs)
    (hperm : vs.Perm ws) : sort d ws = vs :=
  eq_of_inOrder (inOrder_sort d ws) hvs ((sort_perm d ws).trans hperm.symm)

/-- Sorting depends on the values and not on how they stood before. -/
theorem sort_eq_of_perm {d : Direction} {vs ws : List Value} (hperm : vs.Perm ws) :
    sort d vs = sort d ws :=
  sort_eq_of_inOrder (inOrder_sort d ws) ((sort_perm d ws).trans hperm.symm)

theorem isInteger_of_order_ne_gt {d : Direction} {a b : Value} (h : order d a b ≠ .gt)
    (hb : b.isInteger = true) : a.isInteger = true := by
  cases a with
  | integer l => rfl
  | text l =>
      cases b with
      | integer r => exact absurd rfl h
      | text r => cases hb

/-- Values in order are their integers and then their texts, whatever the direction. -/
theorem InOrder.eq_append {d : Direction} {vs : List Value} (h : InOrder d vs) :
    vs = integers vs ++ texts vs := by
  induction vs with
  | nil => rfl
  | cons v vs ih =>
      obtain ⟨hhead, htail⟩ := List.pairwise_cons.mp h
      have hrest := ih htail
      cases v with
      | integer n =>
          have hints : integers (integer n :: vs) = integer n :: integers vs := rfl
          have htexts : texts (integer n :: vs) = texts vs := rfl
          rw [hints, htexts, List.cons_append, ← hrest]
      | text s =>
          -- No integer can follow a text.
          have hall : ∀ w ∈ text s :: vs, w.isInteger = false := by
            intro w hw
            rcases List.mem_cons.mp hw with rfl | hmem
            · rfl
            · cases hint : w.isInteger with
              | false => rfl
              | true => cases isInteger_of_order_ne_gt (hhead w hmem) hint
          rw [integers_eq_nil hall, texts_eq_self hall, List.nil_append]

end Value

namespace Memory

theorem toList_sort (d : Direction) (m : Memory) :
    (m.sort d).1.queue.toList = Value.sort d m.queue.toList :=
  Queue.toList_ofList _

/-- The queue that sorting leaves depends on the values that were there. -/
theorem queue_sort_of_perm {d : Direction} {m n : Memory}
    (hperm : n.queue.toList.Perm m.queue.toList) : (n.sort d).1.queue = (m.sort d).1.queue :=
  congrArg Queue.ofList (Value.sort_eq_of_perm hperm)

/-- **Sorting finds the only arrangement in order.**  In each direction the order of values is
reflexive, transitive and total, and values that are equal in it are the same.  A queue that has
been sorted holds the values it held before, none of them greater than one behind it, and all
integers in front of all texts.  No other arrangement of these values is in order, so queues that
hold the same values, each as often, become the same queue. -/
theorem sort_is_sole_arrangement :
    (∀ (d : Direction) (a b c : Value),
      Value.order d a a = .eq ∧
      (Value.order d a b ≠ .gt → Value.order d b c ≠ .gt → Value.order d a c ≠ .gt) ∧
      (Value.order d a b ≠ .gt ∨ Value.order d b a ≠ .gt) ∧
      (Value.order d a b = .eq → a = b)) ∧
    ∀ (d : Direction) (m : Memory),
      (m.sort d).1.queue.toList.Perm m.queue.toList ∧
      Value.InOrder d (m.sort d).1.queue.toList ∧
      (∃ before behind : List Value, (m.sort d).1.queue.toList = before ++ behind ∧
        (∀ v ∈ before, v.isInteger = true) ∧ ∀ v ∈ behind, v.isInteger = false) ∧
      (∀ vs : List Value, vs.Perm m.queue.toList → Value.InOrder d vs →
        vs = (m.sort d).1.queue.toList) ∧
      ∀ n : Memory, n.queue.toList.Perm m.queue.toList →
        (n.sort d).1.queue = (m.sort d).1.queue := by
  refine ⟨fun d a b c => ⟨?_, ?_, ?_, ?_⟩, fun d m => ⟨?_, ?_, ?_, ?_, ?_⟩⟩
  · exact Std.ReflCmp.compare_self
  · simp only [← Value.precedes_iff]
    exact Value.order_trans
  · exact Value.order_ne_gt_total d a b
  · exact Std.LawfulEqCmp.eq_of_compare
  · rw [toList_sort]
    exact Value.sort_perm d _
  · rw [toList_sort]
    exact Value.inOrder_sort d _
  · rw [toList_sort]
    exact ⟨_, _, (Value.inOrder_sort d m.queue.toList).eq_append,
      fun v => Value.isInteger_of_mem_integers, fun v => Value.isInteger_of_mem_texts⟩
  · intro vs hperm horder
    rw [toList_sort, Value.sort_eq_of_inOrder horder hperm]
  · intro n hperm
    exact queue_sort_of_perm hperm

/-- A queue with texts and integers in no order, and an integer that is there twice. -/
def unsorted : Memory :=
  ⟨.ofList [.text "b", .integer 1, .text "ab", .integer (-2), .integer 1, .text ""],
    .seeded (.ofSeed 0)⟩

theorem sort_is_sole_arrangement_unsorted :
    (unsorted.sort .ascending).1.queue.toList =
        [.integer (-2), .integer 1, .integer 1, .text "", .text "ab", .text "b"] ∧
      (unsorted.sort .descending).1.queue.toList =
        [.integer 1, .integer 1, .integer (-2), .text "b", .text "ab", .text ""] ∧
      (unsorted.sort .descending).1.queue =
        ((unsorted.sort .ascending).1.sort .descending).1.queue ∧
      Value.order .descending (.integer 1) (.text "b") ≠ .gt := by
  obtain ⟨horder, hsort⟩ := sort_is_sole_arrangement
  obtain ⟨hperm, -, -, hup, -⟩ := hsort .ascending unsorted
  obtain ⟨-, -, -, hdown, -⟩ := hsort .descending unsorted
  obtain ⟨-, -, -, -, hsame⟩ := hsort .descending (unsorted.sort .ascending).1
  refine ⟨(hup _ ?_ ?_).symm, (hdown _ ?_ ?_).symm, hsame unsorted hperm.symm, ?_⟩
  · decide +kernel
  · decide +kernel
  · decide +kernel
  · decide +kernel
  · -- An integer in between: the texts stay behind, although the integers are turned around.
    exact (horder .descending (.integer 1) (.integer (-2)) (.text "b")).2.1 (by decide) (by decide)

end Memory
end Fifo
