import Fifo.Random.Draw
import Mathlib.Algebra.Order.Floor.Div
import Mathlib.Data.Set.Card
import Mathlib.Order.Interval.Finset.Nat

/-!
# Words that give an index

The bound of a draw, shifted until its topmost one bit is the topmost bit of a word, is a multiple
of the bound that fits into a word (`two_pow_le_aligned`, `aligned_lt_two_pow`).  A word is accepted
if its product with the bound lies less than that much behind a multiple of 2^32, and which multiple
that is, is the index (`index?_eq_some_iff`).  Now a stretch of numbers as long as a multiple of the
bound holds equally many multiples of the bound wherever it begins (`mul_mem_stretch_iff`).  So each
index is given by equally many words (`ncard_words`).

A draw reads words until one is accepted (`exists_words_of_search?`).
-/

namespace Fifo
namespace Random

/-- A bound, shifted to the top of a word. -/
def aligned (n : UInt32) : Nat :=
  n.toNat * 2 ^ (leadingZeros n).toNat

section Bound

variable {n : UInt32} (hn : 0 < n.toNat)
include hn

theorem leadingZeros_add_log2 : (leadingZeros n).toNat + n.toNat.log2 = 31 := by
  have hlog : n.log2.toNat = n.toNat.log2 := rfl
  have hlt : n.toNat.log2 < 32 := (Nat.log2_lt hn.ne').mpr n.toNat_lt
  have hle : n.log2 ≤ 31 := by
    rw [UInt32.le_iff_toNat_le, hlog]
    exact Nat.le_of_lt_succ hlt
  rw [leadingZeros, UInt32.toNat_sub_of_le _ _ hle, hlog]
  exact Nat.sub_add_cancel (Nat.le_of_lt_succ hlt)

/-- The zero bits are those that the library counts. -/
theorem toNat_leadingZeros_eq_clz : (leadingZeros n).toNat = n.toBitVec.clz.toNat := by
  have hne : n.toBitVec ≠ 0#32 := fun h => hn.ne' (congrArg BitVec.toNat h)
  have hclz : n.toBitVec.clz.toNat < 32 := BitVec.lt_def.mp (BitVec.clz_lt_iff_ne_zero.mpr hne)
  have hlog : n.toNat.log2 = 31 - n.toBitVec.clz.toNat := by
    refine (Nat.log2_eq_iff hn.ne').mpr ⟨?_, ?_⟩
    · exact BitVec.two_pow_sub_clz_le_toNat_of_ne_zero (by decide) hne
    · have hhigh := BitVec.toNat_lt_two_pow_sub_clz (x := n.toBitVec)
      rwa [Nat.succ_sub (Nat.le_of_lt_succ hclz)] at hhigh
  have hsum := leadingZeros_add_log2 hn
  omega

/-- The topmost one bit of the bound becomes the topmost bit of the word. -/
theorem two_pow_le_aligned : 2 ^ 31 ≤ aligned n := by
  calc
    2 ^ 31 = 2 ^ n.toNat.log2 * 2 ^ (leadingZeros n).toNat := by
      rw [← Nat.pow_add, Nat.add_comm, leadingZeros_add_log2 hn]
    _ ≤ aligned n := Nat.mul_le_mul_right _ (Nat.log2_self_le hn.ne')

/-- No bit of the bound is shifted out. -/
theorem aligned_lt_two_pow : aligned n < 2 ^ 32 := by
  calc
    aligned n < 2 ^ (n.toNat.log2 + 1) * 2 ^ (leadingZeros n).toNat :=
      Nat.mul_lt_mul_of_pos_right Nat.lt_log2_self (Nat.two_pow_pos _)
    _ = 2 ^ 32 := by
      rw [← Nat.pow_add, Nat.add_right_comm, Nat.add_comm n.toNat.log2, leadingZeros_add_log2 hn]

theorem toNat_shiftLeft_leadingZeros : (n <<< leadingZeros n).toNat = aligned n := by
  have hsum := leadingZeros_add_log2 hn
  have hzeros : (leadingZeros n).toNat < 32 := by omega
  rw [UInt32.toNat_shiftLeft, Nat.mod_eq_of_lt hzeros, Nat.shiftLeft_eq]
  exact Nat.mod_eq_of_lt (aligned_lt_two_pow hn)

theorem toNat_acceptanceLimit : (acceptanceLimit n).toNat = aligned n - 1 := by
  have hone : 1 ≤ n <<< leadingZeros n := by
    rw [UInt32.le_iff_toNat_le, toNat_shiftLeft_leadingZeros hn]
    exact Nat.le_trans (by decide) (two_pow_le_aligned hn)
  rw [acceptanceLimit, UInt32.toNat_sub_of_le _ _ hone, toNat_shiftLeft_leadingZeros hn]
  rfl

/-- A word gives an index if its product with the bound is at or behind that multiple of 2^32, by
less than the shifted bound. -/
theorem index?_eq_some_iff (w r : UInt32) :
    index? n w = some r ↔
      r.toNat * 2 ^ 32 ≤ w.toNat * n.toNat ∧
        w.toNat * n.toNat < r.toNat * 2 ^ 32 + aligned n := by
  have hlow := two_pow_le_aligned hn
  have hhigh := aligned_lt_two_pow hn
  have hfits : w.toNat * n.toNat < 2 ^ 32 * 2 ^ 32 := Nat.mul_lt_mul'' w.toNat_lt n.toNat_lt
  have hproduct : (w.toUInt64 * n.toUInt64).toNat = w.toNat * n.toNat := by
    rw [UInt64.toNat_mul, UInt32.toNat_toUInt64, UInt32.toNat_toUInt64]
    exact Nat.mod_eq_of_lt hfits
  have hindex : ((w.toUInt64 * n.toUInt64) >>> 32).toUInt32.toNat = w.toNat * n.toNat / 2 ^ 32 := by
    rw [UInt64.toNat_toUInt32, UInt64.toNat_shiftRight, hproduct, Nat.shiftRight_eq_div_pow]
    exact Nat.mod_eq_of_lt (Nat.div_lt_of_lt_mul hfits)
  have haccepted : (w.toUInt64 * n.toUInt64).toUInt32 ≤ acceptanceLimit n ↔
      w.toNat * n.toNat % 2 ^ 32 < aligned n := by
    rw [UInt32.le_iff_toNat_le, UInt64.toNat_toUInt32, hproduct, toNat_acceptanceLimit hn]
    omega
  generalize w.toNat * n.toNat = product at *
  rw [index?]
  simp only [haccepted, Option.ite_none_right_eq_some, Option.some.injEq, ← UInt32.toNat_inj,
    hindex]
  omega

theorem index?_lt {w r : UInt32} (h : index? n w = some r) : r.toNat < n.toNat := by
  have hlt : r.toNat * 2 ^ 32 < n.toNat * 2 ^ 32 := by
    calc
      r.toNat * 2 ^ 32 ≤ w.toNat * n.toNat := ((index?_eq_some_iff hn w r).mp h).1
      _ < 2 ^ 32 * n.toNat := Nat.mul_lt_mul_of_pos_right w.toNat_lt hn
      _ = n.toNat * 2 ^ 32 := Nat.mul_comm _ _
  exact Nat.lt_of_mul_lt_mul_right hlt

end Bound

/-- An index is below its bound even where the bound is too large for a word. -/
theorem index?_ofNat_lt {n : Nat} {w r : UInt32} (hn : 0 < n)
    (h : index? (UInt32.ofNat n) w = some r) : r.toNat < n := by
  by_cases hsmall : n < UInt32.size
  · have hof : (UInt32.ofNat n).toNat = n := UInt32.toNat_ofNat_of_lt' hsmall
    calc
      r.toNat < (UInt32.ofNat n).toNat := index?_lt (by rw [hof]; exact hn) h
      _ = n := hof
  · exact Nat.lt_of_lt_of_le r.toNat_lt (Nat.le_of_not_lt hsmall)

/-- From `start` on, exactly `count` multiples of `n` stand before `start + n * count`. -/
theorem mul_mem_stretch_iff {n : Nat} (hn : 0 < n) (start count k : Nat) :
    start ≤ k * n ∧ k * n < start + n * count ↔
      k ∈ Finset.Ico (start ⌈/⌉ n) (start ⌈/⌉ n + count) := by
  have hceil : ∀ a, a ⌈/⌉ n ≤ k ↔ a ≤ k * n := by
    intro a
    rw [Nat.mul_comm]
    exact ceilDiv_le_iff_le_mul hn
  have hshift : (start + n * count) ⌈/⌉ n = start ⌈/⌉ n + count := by
    rw [Nat.ceilDiv_eq_add_pred_div, Nat.ceilDiv_eq_add_pred_div, ← Nat.add_mul_div_left _ _ hn]
    congr 1
    omega
  rw [Finset.mem_Ico, ← hshift, hceil, ← Nat.not_le, ← Nat.not_le, hceil]

/-- Each index below the bound is given by equally many words. -/
theorem ncard_words {n r : UInt32} (hr : r < n) :
    {w : UInt32 | index? n w = some r}.ncard = 2 ^ (leadingZeros n).toNat := by
  rw [UInt32.lt_iff_toNat_lt] at hr
  have hn : 0 < n.toNat := Nat.zero_lt_of_lt hr
  -- The words are the numbers of a stretch: none of these is too large for a word.
  have himage : UInt32.toNat '' {w : UInt32 | index? n w = some r} =
      Finset.Ico ((r.toNat * 2 ^ 32) ⌈/⌉ n.toNat)
        ((r.toNat * 2 ^ 32) ⌈/⌉ n.toNat + 2 ^ (leadingZeros n).toNat) := by
    ext k
    rw [Finset.mem_coe, ← mul_mem_stretch_iff hn]
    constructor
    · rintro ⟨w, hw, rfl⟩
      exact (index?_eq_some_iff hn w r).mp hw
    · intro hk
      have hword : k < 2 ^ 32 := by
        have hlt : k * n.toNat < 2 ^ 32 * n.toNat := by
          calc
            k * n.toNat < r.toNat * 2 ^ 32 + aligned n := hk.2
            _ < (r.toNat + 1) * 2 ^ 32 := by
              rw [Nat.succ_mul]
              exact Nat.add_lt_add_left (aligned_lt_two_pow hn) _
            _ ≤ n.toNat * 2 ^ 32 := Nat.mul_le_mul_right _ hr
            _ = 2 ^ 32 * n.toNat := Nat.mul_comm _ _
        exact Nat.lt_of_mul_lt_mul_right hlt
      have hof : (UInt32.ofNat k).toNat = k := UInt32.toNat_ofNat_of_lt' hword
      refine ⟨UInt32.ofNat k, (index?_eq_some_iff hn _ r).mpr ?_, hof⟩
      rw [hof]
      exact hk
  have hinjective : Function.Injective UInt32.toNat := fun _ _ => UInt32.toNat.inj
  rw [← Set.ncard_image_of_injective _ hinjective, himage, Set.ncard_coe_finset, Nat.card_Ico,
    Nat.add_sub_cancel_left]

namespace Generator

/-- The next words of a stream, so many, and the generator behind them. -/
def take : Nat → Generator → List UInt32 × Generator
  | 0, g => ([], g)
  | count + 1, g => (g.next.1 :: (take count g.next.2).1, (take count g.next.2).2)

/-- A draw passes over words that are not accepted, and ends behind the first that is. -/
theorem exists_words_of_search? {n : UInt32} {tries j : Nat} {g g' : Generator}
    (h : search? n tries g = some (j, g')) :
    ∃ (passed : List UInt32) (word r : UInt32),
      take (passed.length + 1) g = (passed ++ [word], g') ∧
        (∀ w ∈ passed, index? n w = none) ∧ index? n word = some r ∧ j = r.toNat := by
  induction tries generalizing g with
  | zero => cases h
  | succ tries ih =>
      rw [search?] at h
      cases hfirst : index? n g.next.1 with
      | some r =>
          rw [hfirst] at h
          obtain ⟨rfl, rfl⟩ := Prod.mk.inj (Option.some.inj h)
          exact ⟨[], g.next.1, r, rfl, by simp, hfirst, rfl⟩
      | none =>
          rw [hfirst] at h
          obtain ⟨passed, word, r, htake, hpassed, hword, hj⟩ := ih h
          refine ⟨g.next.1 :: passed, word, r, ?_, ?_, hword, hj⟩
          · rw [List.length_cons, take, htake]
            rfl
          · rw [List.forall_mem_cons]
            exact ⟨hfirst, hpassed⟩

end Generator
end Random
end Fifo
