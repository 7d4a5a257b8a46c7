import Fifo.Random.Shuffle

/-!
# What a shuffle moves

A shuffle draws its indices and then exchanges elements, and an exchange does not look at what it
exchanges.  So a shuffle only moves elements (`perm_of_shuffle?`), and it moves them in the same way
whatever they are (`shuffle?_map`).

Where a shuffle takes its elements from is therefore what it does to the list of their positions
(`positions`): the generator and the number of the elements decide it.
-/

namespace Fifo
namespace Random

variable {α β : Type}

theorem swapIfInBounds_perm (a : Array α) (i j : Nat) : (a.swapIfInBounds i j).Perm a := by
  rw [Array.swapIfInBounds_def]
  split
  · split
    · exact Array.swap_perm _ _
    · exact Array.Perm.refl a
  · exact Array.Perm.refl a

theorem map_swapIfInBounds (f : α → β) (a : Array α) (i j : Nat) :
    (a.swapIfInBounds i j).map f = (a.map f).swapIfInBounds i j := by
  rw [Array.swapIfInBounds_def, Array.swapIfInBounds_def]
  simp only [Array.size_map]
  split
  · split
    · ext k hk hk'
      · simp
      · simp only [Array.getElem_map, Array.getElem_swap]
        split
        · rfl
        · split <;> rfl
    · rfl
  · rfl

/-- Exchanging moves elements and does nothing else, whatever the indices. -/
theorem arrange_perm (i : Nat) (js : List Nat) (a : Array α) : (arrange i js a).Perm a := by
  induction i generalizing js a with
  | zero => exact Array.Perm.refl a
  | succ i ih =>
      cases js with
      | nil => exact Array.Perm.refl a
      | cons j js => exact (ih js _).trans (swapIfInBounds_perm a (i + 1) j)

/-- Exchanging does not look at the elements. -/
theorem map_arrange (f : α → β) (i : Nat) (js : List Nat) (a : Array α) :
    (arrange i js a).map f = arrange i js (a.map f) := by
  induction i generalizing js a with
  | zero => rfl
  | succ i ih =>
      cases js with
      | nil => rfl
      | cons j js => rw [arrange, arrange, ih, map_swapIfInBounds]

theorem shuffle?_eq (g : Generator) (vs : List α) :
    shuffle? g vs = (indices? (vs.length - 1) g).map fun r =>
      ((arrange (vs.length - 1) r.1 vs.toArray).toList, r.2) := by
  rw [shuffle?, shuffleFrom_eq, Option.map_map]
  rfl

/-- A shuffle moves elements and does nothing else. -/
theorem perm_of_shuffle? {g g' : Generator} {vs ws : List α}
    (h : shuffle? g vs = some (ws, g')) : ws.Perm vs := by
  rw [shuffle?_eq, Option.map_eq_some_iff] at h
  obtain ⟨r, -, hr⟩ := h
  rw [← (Prod.mk.inj hr).1]
  exact Array.perm_iff_toList_perm.mp (arrange_perm _ r.1 vs.toArray)

/-- A shuffle does not look at the elements. -/
theorem shuffle?_map (f : α → β) (g : Generator) (vs : List α) :
    shuffle? g (vs.map f) = (shuffle? g vs).map fun r => (r.1.map f, r.2) := by
  rw [shuffle?_eq, shuffle?_eq, List.length_map, Option.map_map]
  congr 1
  funext r
  have hmap := congrArg Array.toList (map_arrange f (vs.length - 1) r.1 vs.toArray)
  rw [Array.toList_map, List.map_toArray] at hmap
  simp only [Function.comp, hmap]

/-- The positions from which a shuffle of `n` elements takes them, and the generator behind it.  A
stream without accepted words leaves everything as it is. -/
def positions (g : Generator) (n : Nat) : List Nat × Generator :=
  (shuffle? g (List.range n)).getD (List.range n, g)

theorem positions_perm (g : Generator) (n : Nat) : (positions g n).1.Perm (List.range n) := by
  unfold positions
  cases h : shuffle? g (List.range n) with
  | none => exact List.Perm.refl _
  | some r => exact perm_of_shuffle? h

/-- A list of fewer than two elements is shuffled without a draw. -/
theorem positions_of_lt_two {n : Nat} (h : n < 2) (g : Generator) :
    positions g n = (List.range n, g) := by
  have hdraws : n - 1 = 0 := by omega
  simp [positions, shuffle?, hdraws, shuffleFrom]

/-- A list by its positions. -/
theorem map_some_eq (vs : List α) : vs.map some = (List.range vs.length).map (vs[·]?) := by
  refine List.ext_getElem (by simp) ?_
  intro i hi hi'
  simp

/-- Every list of a length is shuffled in the same way: its elements are taken from the same
positions, and the generator behind it is the same. -/
theorem shuffle?_positions (g : Generator) (vs : List α) :
    let r := (shuffle? g vs).getD (vs, g)
    r.1.map some = (positions g vs.length).1.map (vs[·]?) ∧
      r.2 = (positions g vs.length).2 := by
  -- Both sides are what the shuffle makes of the elements, each marked as one that is there.
  have hmap : shuffle? g (vs.map some) = shuffle? g ((List.range vs.length).map (vs[·]?)) := by
    rw [map_some_eq]
  rw [shuffle?_map, shuffle?_map] at hmap
  unfold positions
  cases hvs : shuffle? g vs with
  | none =>
      rw [hvs, Option.map_none, eq_comm, Option.map_eq_none_iff] at hmap
      rw [hmap]
      exact ⟨map_some_eq vs, rfl⟩
  | some r =>
      rw [hvs, Option.map_some, eq_comm, Option.map_eq_some_iff] at hmap
      obtain ⟨p, hp, heq⟩ := hmap
      rw [hp]
      exact ⟨(Prod.mk.inj heq).1.symm, (Prod.mk.inj heq).2.symm⟩

end Random
end Fifo
