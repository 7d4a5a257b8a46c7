import Fifo.Proofs.Text.Numerals
import Fifo.Proofs.Value.Arithmetic

/-!
# Grouping sums

The sum of three values can be taken in two ways, and both give a result.  They differ only where
two integers stand side by side with a text on one side of them: one way adds the integers and joins
their sum to the text, the other writes the integers one behind the other.

That these are never the same is a fact about numerals.  A numeral that is written behind another
one makes a numeral only if it has no sign, and then of a number at least ten times as far from 0 as
the first (`Decimal.scaled_of_append`).  The sum of the two is not that number: where the longer
numeral is still one of 64 bits the sum does not wrap, and it is smaller (`Decimal.ofInt64_add_ne`).
-/

namespace Fifo
namespace Decimal

/-- A sign stands only in front of a numeral. -/
theorem Numeral.not_append_minus {cs ds : List Char} {n : Int} (hcs : cs ≠ []) :
    ¬ Numeral (cs ++ '-' :: ds) n := by
  intro h
  have hsign : ∀ es : List Char, IsDigits es → '-' ∉ es :=
    fun es hes hmem => absurd (hes.2 '-' hmem) (by decide)
  obtain ⟨c, rest, rfl⟩ := List.exists_cons_of_ne_nil hcs
  rw [List.cons_append] at h
  cases h with
  | unsigned hds => exact hsign _ hds (by simp)
  | plus hds => exact hsign _ hds (by simp)
  | minus hds => exact hsign _ hds (by simp)

theorem numeral_ne_nil (n : Int) : numeral n ≠ [] :=
  (numeral_numeral n).ne_nil

theorem isDigits_append (m n : Nat) : IsDigits (digits m ++ digits n) := by
  refine ⟨by simp [(isDigits_digits m).1], fun c hc => ?_⟩
  rcases List.mem_append.mp hc with hm | hn
  · exact (isDigits_digits m).2 c hm
  · exact (isDigits_digits n).2 c hn

/-- The value of digits behind digits. -/
theorem ofDigitChars_append_digits (m n : Nat) :
    Nat.ofDigitChars 10 (digits m ++ digits n) 0 = 10 ^ (digits n).length * m + n := by
  have hvalue (k : Nat) : Nat.ofDigitChars 10 (digits k) 0 = k := Nat.ofDigitChars_ten_toDigits
  rw [Nat.ofDigitChars_append, Nat.ofDigitChars_eq_ofDigitChars_zero, hvalue, hvalue]

theorem ten_le_pow_length (n : Nat) : (10 : Int) ≤ (10 ^ (digits n).length : Nat) := by
  have hpos : 1 ≤ (digits n).length := List.length_pos_iff.mpr (isDigits_digits n).1
  exact_mod_cast Nat.pow_le_pow_right (by decide : 0 < 10) hpos

/-- The last number is the first one, scaled by ten or more, and the second one behind it. -/
structure Scaled (m n k : Int) : Prop where
  left_ne_zero : m ≠ 0
  right_nonneg : 0 ≤ n
  value : ∃ scale : Int, 10 ≤ scale ∧ k = if 0 ≤ m then scale * m + n else scale * m - n

/-- A numeral behind another one makes a numeral only of a scaled number. -/
theorem scaled_of_append {m n k : Int} (h : numeral m ++ numeral n = numeral k) :
    Scaled m n k := by
  have hk : Numeral (numeral m ++ numeral n) k := h ▸ numeral_numeral k
  cases n with
  | negSucc b => exact absurd hk (Numeral.not_append_minus (numeral_ne_nil m))
  | ofNat b =>
      have hscale := ten_le_pow_length b
      cases m with
      | ofNat a =>
          have hdigits := Numeral.unsigned (isDigits_append a b)
          rw [ofDigitChars_append_digits] at hdigits
          have hvalue : k = (10 ^ (digits b).length * a + b : Nat) := hk.unique hdigits
          refine ⟨?_, Int.natCast_nonneg b, _, hscale, ?_⟩
          · -- Digits behind a zero have their own value, and are written without it.
            intro hzero
            obtain rfl : a = 0 := Int.ofNat.inj hzero
            rw [hvalue, Nat.mul_zero, Nat.zero_add] at h
            exact numeral_ne_nil 0 (List.append_left_eq_self.mp h)
          · rw [if_pos (show 0 ≤ Int.ofNat a from Int.natCast_nonneg a), hvalue, Int.natCast_add,
              Int.natCast_mul]
            rfl
      | negSucc a =>
          have hdigits := Numeral.minus (isDigits_append (a + 1) b)
          rw [ofDigitChars_append_digits] at hdigits
          have hvalue : k = -(10 ^ (digits b).length * (a + 1) + b : Nat) := hk.unique hdigits
          refine ⟨Int.negSucc_ne_zero a, Int.natCast_nonneg b, _, hscale, ?_⟩
          rw [if_neg (Int.negSucc_not_nonneg a).mp, hvalue, Int.natCast_add, Int.natCast_mul,
            Int.neg_add, ← Int.mul_neg]
          rfl

/-- A sum of 64 bits is not written like its summands one behind the other, even if it wraps. -/
theorem ofInt64_add_ne (a b : Int64) : ofInt64 (a + b) ≠ ofInt64 a ++ ofInt64 b := by
  intro h
  have htexts : numeral a.toInt ++ numeral b.toInt = numeral (a + b).toInt := by
    simpa [ofInt64] using congrArg String.toList h.symm
  obtain ⟨hne, hnonneg, scale, hscale, hvalue⟩ := scaled_of_append htexts
  have hwraps : (a + b).toInt % 2 ^ 64 = (a.toInt + b.toInt) % 2 ^ 64 := by
    rw [Int64.toInt_add]
    exact bmod_modEq _
  have ha := a.le_toInt
  have hb := b.toInt_lt
  have hlow := (a + b).le_toInt
  have hhigh := (a + b).toInt_lt
  -- The longer numeral bounds the first summand, so that the sum is exact on either side of 0.
  by_cases hsign : 0 ≤ a.toInt
  · rw [if_pos hsign] at hvalue
    have hlarge : 10 * a.toInt ≤ scale * a.toInt := Int.mul_le_mul_of_nonneg_right hscale hsign
    omega
  · rw [if_neg hsign] at hvalue
    have hlarge : scale * a.toInt ≤ 10 * a.toInt :=
      Int.mul_le_mul_of_nonpos_right hscale (by omega)
    omega

end Decimal

namespace Operation

/-- The sum of three values, of which the first two are added first. -/
def sumLeft (x y z : Value) : Except Fault Value := do
  let s ← sum.apply x y
  sum.apply s z

/-- The sum of three values, of which the last two are added first. -/
def sumRight (x y z : Value) : Except Fault Value := do
  let s ← sum.apply y z
  sum.apply x s

/-- Two integers side by side, and a text before or behind them. -/
inductive Uneven : Value → Value → Value → Prop
  | textBehind (a b : Int64) (s : String) : Uneven (.integer a) (.integer b) (.text s)
  | textBefore (s : String) (a b : Int64) : Uneven (.text s) (.integer a) (.integer b)

theorem sumLeft_textBehind (a b : Int64) (s : String) :
    sumLeft (.integer a) (.integer b) (.text s) = .ok (.text (Decimal.ofInt64 (a + b) ++ s)) :=
  rfl

theorem sumRight_textBehind (a b : Int64) (s : String) :
    sumRight (.integer a) (.integer b) (.text s) =
      .ok (.text (Decimal.ofInt64 a ++ Decimal.ofInt64 b ++ s)) := by
  rw [String.append_assoc]
  rfl

theorem sumLeft_textBefore (s : String) (a b : Int64) :
    sumLeft (.text s) (.integer a) (.integer b) =
      .ok (.text (s ++ (Decimal.ofInt64 a ++ Decimal.ofInt64 b))) := by
  rw [← String.append_assoc]
  rfl

theorem sumRight_textBefore (s : String) (a b : Int64) :
    sumRight (.text s) (.integer a) (.integer b) = .ok (.text (s ++ Decimal.ofInt64 (a + b))) :=
  rfl

/-- Integers side by side are added in one way and written in the other, which is never the same. -/
theorem Uneven.differ {x y z : Value} (h : Uneven x y z) :
    ∃ l r : String, sumLeft x y z = .ok (.text l) ∧ sumRight x y z = .ok (.text r) ∧ l ≠ r := by
  cases h with
  | textBehind a b s =>
      refine ⟨_, _, sumLeft_textBehind a b s, sumRight_textBehind a b s, fun hsame => ?_⟩
      exact Decimal.ofInt64_add_ne a b ((String.append_left_inj s).mp hsame)
  | textBefore s a b =>
      refine ⟨_, _, sumLeft_textBefore s a b, sumRight_textBefore s a b, fun hsame => ?_⟩
      exact Decimal.ofInt64_add_ne a b ((String.append_right_inj s).mp hsame.symm)

/-- In all other shapes the integers are added in both ways, or written in both. -/
theorem sumLeft_eq_sumRight {x y z : Value} (h : ¬ Uneven x y z) :
    sumLeft x y z = sumRight x y z := by
  cases y with
  | text t =>
      -- A text in the middle makes all sums texts, which are joined in order.
      have hleft : sumLeft x (.text t) z = .ok (.text (x.render ++ t ++ z.render)) := by
        cases x <;> rfl
      have hright : sumRight x (.text t) z = .ok (.text (x.render ++ (t ++ z.render))) := by
        cases x <;> cases z <;> rfl
      rw [hleft, hright, String.append_assoc]
  | integer b =>
      cases x with
      | integer a =>
          cases z with
          | integer c => exact congrArg (Except.ok ∘ Value.integer) (Int64.add_assoc a b c)
          | text u => exact absurd (.textBehind a b u) h
      | text s =>
          cases z with
          | integer c => exact absurd (.textBefore s b c) h
          | text u => exact congrArg (Except.ok ∘ Value.text) String.append_assoc

/-- **Grouping matters in two shapes.**  The two ways to add three values agree exactly unless two
integers stand side by side with a text before or behind them.  In these two shapes both ways give a
text, and whatever the integers and the text are, the two texts differ. -/
theorem grouping_matters_in_two_shapes :
    (∀ x y z : Value, sumLeft x y z = sumRight x y z ↔ ¬ Uneven x y z) ∧
    (∀ (a b : Int64) (s : String), ∃ l r : String,
      sumLeft (.integer a) (.integer b) (.text s) = .ok (.text l) ∧
      sumRight (.integer a) (.integer b) (.text s) = .ok (.text r) ∧ l ≠ r) ∧
    ∀ (s : String) (a b : Int64), ∃ l r : String,
      sumLeft (.text s) (.integer a) (.integer b) = .ok (.text l) ∧
      sumRight (.text s) (.integer a) (.integer b) = .ok (.text r) ∧ l ≠ r := by
  refine ⟨fun x y z => ⟨fun hsame huneven => ?_, sumLeft_eq_sumRight⟩,
    fun a b s => (Uneven.textBehind a b s).differ, fun s a b => (Uneven.textBefore s a b).differ⟩
  obtain ⟨l, r, hleft, hright, hne⟩ := huneven.differ
  rw [hleft, hright] at hsame
  exact hne (Value.text.inj (Except.ok.inj hsame))

-- Where the sum of the integers wraps, it is written with another sign.
example :
    sumLeft (.integer Int64.maxValue) (.integer 1) (.text "a") =
      .ok (.text "-9223372036854775808a") ∧
    sumRight (.integer Int64.maxValue) (.integer 1) (.text "a") =
      .ok (.text "92233720368547758071a") :=
  ⟨rfl, rfl⟩

end Operation
end Fifo
