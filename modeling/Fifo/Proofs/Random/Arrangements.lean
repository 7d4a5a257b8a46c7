import Fifo.Proofs.Random.Draws
import Fifo.Proofs.Random.Positions
import Mathlib.Algebra.BigOperators.Group.Finset.Basic
import Mathlib.Data.List.Permutation

/-!
# Arrangements by their indices

A shuffle draws one index for each position but the first, from the last position down, and none
lies behind its position (`InReach`).  The index that is drawn first says which element comes last,
and nothing moves that element again: what remains is a shuffle of the others (`arrange_succ`).  So
the indices can be read off the arrangement, as long as no element is there twice
(`arrange_injective`), and every arrangement has its indices (`exists_arrange`).  Of the sequences
of indices there are therefore as many as arrangements (`rearranged_bijOn`, `ncard_arrangements`).

The indices in turn come from words, one accepted word for each (`wordIndices?`,
`exists_drawn_of_indices?`), and equally many sequences of words give each sequence of indices
(`ncard_wordIndices?`).  So equally many lead to each arrangement (`ncard_rearranging`).
-/

namespace Fifo
namespace Random

variable {α : Type}

/-- One index for each of the positions `i`, `i - 1` and so on down to 1, and none behind its
position. -/
def InReach : Nat → List Nat → Prop
  | 0, [] => True
  | i + 1, j :: js => j ≤ i + 1 ∧ InReach i js
  | _, _ => False

theorem inReach_zero {js : List Nat} : InReach 0 js ↔ js = [] := by
  cases js with
  | nil => exact iff_of_true trivial rfl
  | cons j js => exact iff_of_false not_false (List.cons_ne_nil j js)

theorem InReach.exists_cons {i : Nat} {js : List Nat} (h : InReach (i + 1) js) :
    ∃ j rest, js = j :: rest ∧ j ≤ i + 1 ∧ InReach i rest := by
  cases js with
  | nil => exact h.elim
  | cons j js => exact ⟨j, js, rfl, h.1, h.2⟩

theorem swapIfInBounds_push {a : Array α} {i j : Nat} (hi : i < a.size) (hj : j < a.size) (x : α) :
    (a.push x).swapIfInBounds i j = (a.swapIfInBounds i j).push x := by
  ext k hk hk'
  · simp
  · simp only [Array.getElem_swapIfInBounds, Array.getElem_push]
    grind

/-- Exchanges in front of an element leave it where it is. -/
theorem arrange_push {i : Nat} {js : List Nat} {a : Array α} (hjs : InReach i js)
    (hi : i < a.size) (x : α) : arrange i js (a.push x) = (arrange i js a).push x := by
  induction i generalizing js a with
  | zero =>
      rw [inReach_zero.mp hjs]
      rfl
  | succ i ih =>
      obtain ⟨j, rest, rfl, hj, hrest⟩ := hjs.exists_cons
      rw [arrange, arrange, swapIfInBounds_push hi (by omega)]
      exact ih hrest (by simp only [Array.size_swapIfInBounds]; omega)

/-- What remains of an array when the element at `j` has been exchanged for the last, at `i`, and
taken away. -/
def without (a : Array α) (i j : Nat) : Array α :=
  (a.swapIfInBounds i j).pop

section Last

variable {a : Array α} {i j : Nat} (hsize : a.size = i + 2) (hj : j ≤ i + 1)
include hsize

theorem size_without : (without a (i + 1) j).size = i + 1 := by
  simp [without, hsize]

include hj

theorem swapIfInBounds_eq_push :
    a.swapIfInBounds (i + 1) j = (without a (i + 1) j).push a[j] := by
  ext k hk hk'
  · simp [without, hsize]
  · simp only [without]
    grind

theorem without_push_perm : ((without a (i + 1) j).push a[j]).Perm a := by
  rw [← swapIfInBounds_eq_push hsize hj]
  exact swapIfInBounds_perm a (i + 1) j

/-- The first index says which element comes last; the others arrange what remains. -/
theorem arrange_succ {js : List Nat} (hjs : InReach i js) :
    arrange (i + 1) (j :: js) a = (arrange i js (without a (i + 1) j)).push a[j] := by
  have hlt : i < (without a (i + 1) j).size := by
    rw [size_without hsize]
    exact Nat.lt_succ_self i
  rw [arrange, swapIfInBounds_eq_push hsize hj, arrange_push hjs hlt]

end Last

/-- Different indices give different arrangements of elements that are all different. -/
theorem arrange_injective {i : Nat} {a : Array α} (hsize : a.size - 1 = i) (ha : a.toList.Nodup)
    {js ks : List Nat} (hjs : InReach i js) (hks : InReach i ks)
    (h : arrange i js a = arrange i ks a) : js = ks := by
  induction i generalizing a js ks with
  | zero => rw [inReach_zero.mp hjs, inReach_zero.mp hks]
  | succ i ih =>
      have hsize : a.size = i + 2 := by omega
      obtain ⟨j, js', rfl, hj, hjs'⟩ := hjs.exists_cons
      obtain ⟨k, ks', rfl, hk, hks'⟩ := hks.exists_cons
      rw [arrange_succ hsize hj hjs', arrange_succ hsize hk hks', Array.push_eq_push] at h
      obtain ⟨hlast, hrest⟩ := h
      obtain rfl : j = k := ha.getElem_inj_iff.mp hlast
      have hnodup : (without a (i + 1) j).toList.Nodup := by
        have hpush : ((without a (i + 1) j).push a[j]).toList.Nodup :=
          (Array.perm_iff_toList_perm.mp (without_push_perm hsize hj)).nodup_iff.mpr ha
        rw [Array.toList_push] at hpush
        exact (List.nodup_append.mp hpush).1
      have hone : (without a (i + 1) j).size - 1 = i := by
        rw [size_without hsize]
        rfl
      rw [ih hone hnodup hjs' hks' hrest]

/-- Every arrangement has its indices. -/
theorem exists_arrange {i : Nat} {a b : Array α} (hsize : a.size - 1 = i) (hperm : b.Perm a) :
    ∃ js, InReach i js ∧ arrange i js a = b := by
  induction i generalizing a b with
  | zero =>
      refine ⟨[], trivial, ?_⟩
      obtain ⟨vs⟩ := a
      obtain ⟨ws⟩ := b
      have hlists : ws.Perm vs := Array.perm_iff_toList_perm.mp hperm
      rcases vs with _ | ⟨x, _ | ⟨y, rest⟩⟩
      · rw [hlists.eq_nil]
        rfl
      · rw [List.perm_singleton.mp hlists]
        rfl
      · simp at hsize
  | succ i ih =>
      have hsize : a.size = i + 2 := by omega
      obtain ⟨c, x, rfl⟩ := Array.exists_push_of_size_eq_add_one (hperm.size_eq.trans hsize)
      obtain ⟨j, hj, rfl⟩ := Array.mem_iff_getElem.mp (hperm.mem_iff.mp Array.mem_push_self)
      have hj : j ≤ i + 1 := by omega
      have hrest : c.Perm (without a (i + 1) j) := by
        have hpush := hperm.trans (without_push_perm hsize hj).symm
        rw [Array.perm_iff_toList_perm, Array.toList_push, Array.toList_push,
          List.perm_append_right_iff] at hpush
        exact Array.perm_iff_toList_perm.mpr hpush
      obtain ⟨js, hjs, hjs'⟩ := ih (by rw [size_without hsize]; rfl) hrest
      refine ⟨j :: js, ⟨hj, hjs⟩, ?_⟩
      rw [arrange_succ hsize hj hjs, hjs']

/-- A list with its elements exchanged as the indices say, from the last position down. -/
def rearranged (vs : List α) (js : List Nat) : List α :=
  (arrange (vs.length - 1) js vs.toArray).toList

theorem rearranged_bijOn {vs : List α} (h : vs.Nodup) :
    Set.BijOn (rearranged vs) {js | InReach (vs.length - 1) js} {ws | ws.Perm vs} := by
  have hsize : vs.toArray.size - 1 = vs.length - 1 := rfl
  refine ⟨?_, ?_, ?_⟩
  · intro js _
    exact Array.perm_iff_toList_perm.mp (arrange_perm _ js vs.toArray)
  · intro js hjs ks hks heq
    exact arrange_injective hsize h hjs hks (Array.toList_inj.mp heq)
  · intro ws hws
    have hperm : ws.toArray.Perm vs.toArray := Array.perm_iff_toList_perm.mpr hws
    obtain ⟨js, hjs, heq⟩ := exists_arrange hsize hperm
    exact ⟨js, hjs, congrArg Array.toList heq⟩

theorem ncard_arrangements {vs : List α} (h : vs.Nodup) :
    {ws : List α | ws.Perm vs}.ncard = vs.length.factorial := by
  classical
  have hset : {ws : List α | ws.Perm vs} = (vs.permutations.toFinset : Set (List α)) := by
    ext ws
    simp
  rw [hset, Set.ncard_coe_finset, List.toFinset_card_of_nodup (List.nodup_permutations vs h),
    List.length_permutations]

/-- The indices that words give, one word for each of the positions `i`, `i - 1` and so on down to
1, if all of the words are accepted. -/
def wordIndices? : Nat → List UInt32 → Option (List Nat)
  | 0, [] => some []
  | i + 1, w :: ws =>
      match index? (UInt32.ofNat (i + 2)) w, wordIndices? i ws with
      | some r, some js => some (r.toNat :: js)
      | _, _ => none
  | _, _ => none

theorem wordIndices?_zero {words : List UInt32} {js : List Nat} :
    wordIndices? 0 words = some js ↔ words = [] ∧ js = [] := by
  cases words with
  | nil => simp [wordIndices?, eq_comm]
  | cons w words => simp [wordIndices?]

theorem wordIndices?_succ {i : Nat} {words : List UInt32} {js : List Nat} :
    wordIndices? (i + 1) words = some js ↔
      ∃ w r ws ks, index? (UInt32.ofNat (i + 2)) w = some r ∧ wordIndices? i ws = some ks ∧
        words = w :: ws ∧ js = r.toNat :: ks := by
  cases words with
  | nil => simp [wordIndices?]
  | cons w ws =>
      rw [wordIndices?]
      generalize UInt32.ofNat (i + 2) = n
      cases hr : index? n w with
      | none => simp [hr]
      | some r =>
          cases hks : wordIndices? i ws with
          | none => simp [hks]
          | some ks => simp [hr, hks, eq_comm]

/-- The indices that words give are such as can be drawn. -/
theorem inReach_of_wordIndices? {i : Nat} {words : List UInt32} {js : List Nat}
    (h : wordIndices? i words = some js) : InReach i js := by
  induction i generalizing words js with
  | zero => exact inReach_zero.mpr (wordIndices?_zero.mp h).2
  | succ i ih =>
      obtain ⟨w, r, ws, ks, hr, hks, -, rfl⟩ := wordIndices?_succ.mp h
      exact ⟨Nat.le_of_lt_succ (index?_ofNat_lt (Nat.succ_pos _) hr), ih hks⟩

/-- The words that a shuffle draws from a stream for the positions `i`, `i - 1` and so on down to 1,
and the generator behind them.  For each position, words are passed over until one is accepted. -/
inductive Drawn : Nat → Generator → List UInt32 → Generator → Prop
  | nil (g : Generator) : Drawn 0 g [] g
  | cons (i : Nat) (g g₁ g₂ : Generator) (passed : List UInt32) (w : UInt32) (ws : List UInt32)
      (hpassed : ∀ v ∈ passed, index? (UInt32.ofNat (i + 2)) v = none)
      (htake : g.take (passed.length + 1) = (passed ++ [w], g₁)) (hrest : Drawn i g₁ ws g₂) :
      Drawn (i + 1) g (w :: ws) g₂

/-- The indices of a shuffle are those of the words that it draws. -/
theorem exists_drawn_of_indices? {i : Nat} {js : List Nat} {g g' : Generator}
    (h : indices? i g = some (js, g')) :
    ∃ words, Drawn i g words g' ∧ wordIndices? i words = some js := by
  induction i generalizing g js with
  | zero =>
      obtain ⟨rfl, rfl⟩ := Prod.mk.inj (Option.some.inj h)
      exact ⟨[], .nil g, rfl⟩
  | succ i ih =>
      rw [indices?] at h
      cases hdraw : g.below? (i + 2) with
      | none =>
          rw [hdraw] at h
          cases h
      | some drawn =>
          obtain ⟨j, g₁⟩ := drawn
          rw [hdraw] at h
          obtain ⟨⟨ks, g₂⟩, hks, hjs⟩ := Option.map_eq_some_iff.mp h
          obtain ⟨rfl, rfl⟩ := Prod.mk.inj hjs
          obtain ⟨passed, w, r, htake, hpassed, hr, rfl⟩ := Generator.exists_words_of_search? hdraw
          obtain ⟨ws, hdrawn, hindices⟩ := ih hks
          refine ⟨w :: ws, .cons i g g₁ g₂ passed w ws hpassed htake hdrawn, ?_⟩
          exact wordIndices?_succ.mpr ⟨w, r, ws, ks, hr, hindices, rfl, rfl⟩

/-- Equally many sequences of words give each sequence of indices. -/
theorem ncard_wordIndices? {i : Nat} {js : List Nat} (hi : i + 1 < UInt32.size)
    (hjs : InReach i js) :
    {words | wordIndices? i words = some js}.ncard =
      ∏ p ∈ Finset.range i, 2 ^ (leadingZeros (UInt32.ofNat (p + 2))).toNat := by
  induction i generalizing js with
  | zero =>
      obtain rfl := inReach_zero.mp hjs
      have hset : {words | wordIndices? 0 words = some []} = {[]} := by
        ext words
        simp [wordIndices?_zero]
      rw [hset, Set.ncard_singleton, Finset.range_zero, Finset.prod_empty]
  | succ i ih =>
      obtain ⟨j, ks, rfl, hj, hks⟩ := hjs.exists_cons
      have hof : (UInt32.ofNat j).toNat = j := UInt32.toNat_ofNat_of_lt' (by omega)
      -- A sequence is a first word, for `j`, in front of a sequence for the other indices.
      have hset : {words | wordIndices? (i + 1) words = some (j :: ks)} =
          (fun p : UInt32 × List UInt32 => p.1 :: p.2) ''
            ({w | index? (UInt32.ofNat (i + 2)) w = some (UInt32.ofNat j)} ×ˢ
              {words | wordIndices? i words = some ks}) := by
        ext words
        constructor
        · intro hwords
          obtain ⟨w, r, ws, ks', hr, hindices, rfl, heq⟩ := wordIndices?_succ.mp hwords
          obtain ⟨rfl, rfl⟩ := List.cons.inj heq
          exact ⟨(w, ws), ⟨hr.trans (congrArg some UInt32.ofNat_toNat.symm), hindices⟩, rfl⟩
        · rintro ⟨⟨w, ws⟩, ⟨hw, hws⟩, rfl⟩
          exact wordIndices?_succ.mpr ⟨w, _, ws, ks, hw, hws, rfl, by rw [hof]⟩
      have hinjective : Function.Injective (fun p : UInt32 × List UInt32 => p.1 :: p.2) := by
        rintro ⟨w, ws⟩ ⟨w', ws'⟩ heq
        exact Prod.ext (List.cons.inj heq).1 (List.cons.inj heq).2
      have hlt : UInt32.ofNat j < UInt32.ofNat (i + 2) := by
        rw [UInt32.lt_iff_toNat_lt, hof, UInt32.toNat_ofNat_of_lt' hi]
        omega
      rw [hset, Set.ncard_image_of_injective _ hinjective, Set.ncard_prod, ncard_words hlt,
        ih (by omega) hks, Finset.prod_range_succ, Nat.mul_comm]

/-- Equally many sequences of words lead to each arrangement. -/
theorem ncard_rearranging {vs ws : List α} (h : vs.Nodup) (hlength : vs.length < UInt32.size)
    (hws : ws.Perm vs) :
    {words | (wordIndices? (vs.length - 1) words).map (rearranged vs) = some ws}.ncard =
      ∏ p ∈ Finset.range (vs.length - 1), 2 ^ (leadingZeros (UInt32.ofNat (p + 2))).toNat := by
  obtain ⟨-, hinjective, hsurjective⟩ := rearranged_bijOn h
  obtain ⟨js, hjs, rfl⟩ := hsurjective hws
  have hset : {words | (wordIndices? (vs.length - 1) words).map (rearranged vs) =
      some (rearranged vs js)} = {words | wordIndices? (vs.length - 1) words = some js} := by
    ext words
    constructor
    · intro hwords
      obtain ⟨ks, hks, heq⟩ := Option.map_eq_some_iff.mp hwords
      rw [← hinjective (inReach_of_wordIndices? hks) hjs heq]
      exact hks
    · intro hwords
      exact Option.map_eq_some_iff.mpr ⟨js, hwords, rfl⟩
  have hone : 1 < UInt32.size := by decide
  rw [hset, ncard_wordIndices? (by omega) hjs]

end Random
end Fifo
