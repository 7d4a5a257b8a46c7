import Fifo.Value.Arithmetic
import Mathlib.Algebra.Order.Group.Unbundled.Int
import Mathlib.Data.Int.ModEq

/-!
# Arithmetic modulo 2^64

Each operation on integers has an exact counterpart on numbers of any size (`Operation.unbounded`),
and what it returns is congruent to that modulo 2^64 (`onIntegers_modEq`).  Integers that are
congruent modulo 2^64 are the same (`eq_of_toInt_modEq`), so the congruence says all there is to say
of a result.  That a quotient times the divisor and the remainder make up the dividend is then a
fact about exact numbers, and holds even where the quotient is too large to be returned.
-/

namespace Fifo

theorem bmod_modEq (x : Int) : x.bmod (2 ^ 64) ≡ x [ZMOD 2 ^ 64] :=
  Int.bmod_emod

/-- Integers that are congruent modulo 2^64 are the same. -/
theorem eq_of_toInt_modEq {a b : Int64} (h : a.toInt ≡ b.toInt [ZMOD 2 ^ 64]) : a = b := by
  have ha := a.le_toInt
  have ha' := a.toInt_lt
  have hb := b.le_toInt
  have hb' := b.toInt_lt
  rw [Int.ModEq] at h
  exact Int64.toInt_inj.mp (by omega)

/-- The result is the integer that is congruent to an exact number modulo 2^64, and there is no
other. -/
def Wrapped (result : Except Fault Value) (number : Int) : Prop :=
  ∃ n : Int64, result = .ok (.integer n) ∧ n.toInt ≡ number [ZMOD 2 ^ 64] ∧
    ∀ k : Int64, k.toInt ≡ number [ZMOD 2 ^ 64] → k = n

namespace Operation

/-- What an operation gives on numbers of any size; quotients are cut toward zero. -/
def unbounded (l r : Int) : Operation → Int
  | sum => l + r
  | difference => l - r
  | product => l * r
  | quotient => l.tdiv r
  | remainder => l.tmod r

/-- An integer that an operation returns is congruent to what it gives on numbers of any size. -/
theorem onIntegers_modEq {op : Operation} {l r n : Int64} (h : op.onIntegers l r = .ok n) :
    n.toInt ≡ op.unbounded l.toInt r.toInt [ZMOD 2 ^ 64] := by
  cases op with
  | sum =>
      cases h
      rw [Int64.toInt_add]
      exact bmod_modEq _
  | difference =>
      cases h
      rw [Int64.toInt_sub]
      exact bmod_modEq _
  | product =>
      cases h
      rw [Int64.toInt_mul]
      exact bmod_modEq _
  | quotient =>
      rw [onIntegers] at h
      split at h
      · cases h
      · cases h
        rw [Int64.toInt_div]
        exact bmod_modEq _
  | remainder =>
      rw [onIntegers] at h
      split at h
      · cases h
      · cases h
        rw [Int64.toInt_mod]
        rfl

theorem wrapped_apply {op : Operation} {l r n : Int64} (h : op.onIntegers l r = .ok n) :
    Wrapped (op.apply (.integer l) (.integer r)) (op.unbounded l.toInt r.toInt) := by
  have hn := onIntegers_modEq h
  refine ⟨n, ?_, hn, fun k hk => eq_of_toInt_modEq (hk.trans hn.symm)⟩
  rw [apply, h]
  rfl

theorem apply_quotient (l r : Int64) :
    quotient.apply (.integer l) (.integer r) =
      if r = 0 then .error (.of .divisionByZero) else .ok (.integer (l / r)) := by
  rw [apply, onIntegers]
  split <;> rfl

theorem apply_remainder (l r : Int64) :
    remainder.apply (.integer l) (.integer r) =
      if r = 0 then .error (.of .divisionByZero) else .ok (.integer (l % r)) := by
  rw [apply, onIntegers]
  split <;> rfl

/-- Only the sum is defined where a text takes part. -/
theorem apply_of_text {op : Operation} {a b : Value} (hop : op ≠ sum)
    (h : a.isInteger = false ∨ b.isInteger = false) :
    op.apply a b = .error (.of .operationMismatch) := by
  have htexts : op.apply a b = op.onTexts a b := by
    cases a with
    | text s => rfl
    | integer l =>
        cases b with
        | text t => rfl
        | integer r => simp [Value.isInteger] at h
  rw [htexts]
  cases op with
  | sum => exact absurd rfl hop
  | difference => rfl
  | product => rfl
  | quotient => rfl
  | remainder => rfl

/-- The limits do not change a quotient, except for that of the least integer and -1. -/
theorem toInt_div_of_fits {l r : Int64} (h : ¬(l.toInt = -2 ^ 63 ∧ r.toInt = -1)) :
    (l / r).toInt = l.toInt.tdiv r.toInt := by
  by_cases hl : l = Int64.minValue
  · refine Int64.toInt_div_of_ne_right l r ?_
    rintro rfl
    exact h ⟨by rw [hl, Int64.toInt_minValue], rfl⟩
  · exact Int64.toInt_div_of_ne_left l r hl

/-- The remainder is smaller than the divisor, and has the sign of the dividend or none. -/
theorem toInt_mod_spec {l r : Int64} (hr : r ≠ 0) :
    |(l % r).toInt| < |r.toInt| ∧ ((l % r).toInt.sign = l.toInt.sign ∨ l % r = 0) := by
  have hne : r.toInt ≠ 0 := fun h => hr (Int64.toInt_inj.mp h)
  constructor
  · rw [Int64.toInt_mod, Int.abs_eq_natAbs, Int.abs_eq_natAbs, Int.natAbs_tmod, Int.ofNat_lt]
    exact Nat.mod_lt _ (Int.natAbs_pos.mpr hne)
  · by_cases hdvd : r.toInt ∣ l.toInt
    · right
      refine Int64.toInt_inj.mp ?_
      rw [Int64.toInt_mod, Int.tmod_eq_zero_of_dvd hdvd]
      rfl
    · left
      rw [Int64.toInt_mod, Int.sign_tmod, if_neg hdvd]

/-- The quotient times the divisor and the remainder make up the dividend, even where the quotient
wraps. -/
theorem div_mul_add_mod {l r : Int64} (hr : r ≠ 0) : l / r * r + l % r = l := by
  have hquotient : (l / r).toInt ≡ l.toInt.tdiv r.toInt [ZMOD 2 ^ 64] :=
    @onIntegers_modEq quotient l r _ (if_neg hr)
  have hproduct : (l / r * r).toInt ≡ (l / r).toInt * r.toInt [ZMOD 2 ^ 64] :=
    @onIntegers_modEq product _ _ _ rfl
  refine eq_of_toInt_modEq ?_
  calc
    (l / r * r + l % r).toInt ≡ (l / r * r).toInt + (l % r).toInt [ZMOD 2 ^ 64] :=
      @onIntegers_modEq sum _ _ _ rfl
    _ ≡ l.toInt.tdiv r.toInt * r.toInt + (l % r).toInt [ZMOD 2 ^ 64] :=
      (hproduct.trans (hquotient.mul_right _)).add_right _
    _ = l.toInt := by rw [Int64.toInt_mod, Int.tdiv_mul_add_tmod]

/-- **Integers wrap around.**  Sums, differences and products are the only integers congruent to the
exact ones modulo 2^64.  Quotients and remainders fail for a divisor that is 0, and for no other.
Otherwise, except for the least integer divided by -1, a quotient is the exact one cut toward zero,
and the remainder is smaller than the divisor, has the sign of the dividend or none, and makes up
the dividend with the quotient times the divisor, exactly.  With the operations themselves, which
wrap, the last holds without exception.  Where a text takes part, all but the sum fail, whatever the
divisor. -/
theorem integers_wrap_around :
    (∀ l r : Int64,
      Wrapped (sum.apply (.integer l) (.integer r)) (l.toInt + r.toInt) ∧
      Wrapped (difference.apply (.integer l) (.integer r)) (l.toInt - r.toInt) ∧
      Wrapped (product.apply (.integer l) (.integer r)) (l.toInt * r.toInt)) ∧
    (∀ l r : Int64,
      (quotient.apply (.integer l) (.integer r) = .error (.of .divisionByZero) ↔ r = 0) ∧
      (remainder.apply (.integer l) (.integer r) = .error (.of .divisionByZero) ↔ r = 0)) ∧
    (∀ l r : Int64, r ≠ 0 → ¬(l.toInt = -2 ^ 63 ∧ r.toInt = -1) →
      ∃ q m : Int64,
        quotient.apply (.integer l) (.integer r) = .ok (.integer q) ∧
        remainder.apply (.integer l) (.integer r) = .ok (.integer m) ∧
        q.toInt = l.toInt.tdiv r.toInt ∧
        |m.toInt| < |r.toInt| ∧ (m.toInt.sign = l.toInt.sign ∨ m = 0) ∧
        l.toInt = q.toInt * r.toInt + m.toInt) ∧
    (∀ l r : Int64, r ≠ 0 →
      (do
        let q ← quotient.apply (.integer l) (.integer r)
        let p ← product.apply q (.integer r)
        let m ← remainder.apply (.integer l) (.integer r)
        sum.apply p m) = .ok (.integer l)) ∧
    ∀ (op : Operation) (a b : Value), op ≠ sum → a.isInteger = false ∨ b.isInteger = false →
      op.apply a b = .error (.of .operationMismatch) := by
  refine ⟨fun l r => ?_, fun l r => ?_, fun l r hr hfits => ?_, fun l r hr => ?_,
    fun op a b => apply_of_text⟩
  · exact ⟨wrapped_apply rfl, wrapped_apply rfl, wrapped_apply rfl⟩
  · rw [apply_quotient, apply_remainder]
    simp
  · obtain ⟨hsmall, hsign⟩ := toInt_mod_spec (l := l) hr
    refine ⟨l / r, l % r, ?_, ?_, toInt_div_of_fits hfits, hsmall, hsign, ?_⟩
    · rw [apply_quotient, if_neg hr]
    · rw [apply_remainder, if_neg hr]
    · rw [toInt_div_of_fits hfits, Int64.toInt_mod, Int.tdiv_mul_add_tmod]
  · rw [apply_quotient, apply_remainder, if_neg hr, if_neg hr]
    change Except.ok (Value.integer (l / r * r + l % r)) = .ok (.integer l)
    rw [div_mul_add_mod hr]

/-- At the limits: the least integer and -1, a negative dividend, and a text divided by 0. -/
theorem integers_wrap_around_limits :
    (∃ q m : Int64,
      quotient.apply (.integer (-7)) (.integer 2) = .ok (.integer q) ∧
      remainder.apply (.integer (-7)) (.integer 2) = .ok (.integer m) ∧
      (-7 : Int64).toInt = q.toInt * (2 : Int64).toInt + m.toInt) ∧
    (do
      let q ← quotient.apply (.integer Int64.minValue) (.integer (-1))
      let p ← product.apply q (.integer (-1))
      let m ← remainder.apply (.integer Int64.minValue) (.integer (-1))
      sum.apply p m) = .ok (.integer Int64.minValue) ∧
    quotient.apply (.text "6") (.integer 0) = .error (.of .operationMismatch) := by
  obtain ⟨-, -, hdivide, hidentity, htexts⟩ := integers_wrap_around
  obtain ⟨q, m, hq, hm, -, -, -, hmakes⟩ := hdivide (-7) 2 (by decide) (by decide)
  exact ⟨⟨q, m, hq, hm, hmakes⟩, hidentity Int64.minValue (-1) (by decide),
    htexts quotient (.text "6") (.integer 0) (by decide) (.inl rfl)⟩

end Operation
end Fifo
