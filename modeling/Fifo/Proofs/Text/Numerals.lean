import Fifo.Text.Decimal

/-!
# Which texts are numerals

`Decimal.Numeral cs n` says that the characters `cs` are a numeral and that `n` is its value; it is
a description, with no reading in it.  Reading succeeds on exactly these texts
(`int?_eq_some_iff`), those with a value of 64 bits if that is asked for (`int64?_eq_some_iff`), and
what is written for a number is a numeral of it (`numeral_numeral`).
-/

namespace Fifo
namespace Decimal

/-- One or more of the ten digits. -/
def IsDigits (cs : List Char) : Prop :=
  cs ≠ [] ∧ ∀ c ∈ cs, c.isDigit = true

/-- The characters are a numeral with the given value: at most one sign, then digits. -/
inductive Numeral : List Char → Int → Prop
  | unsigned {ds : List Char} (hds : IsDigits ds) : Numeral ds (Nat.ofDigitChars 10 ds 0 : Nat)
  | plus {ds : List Char} (hds : IsDigits ds) : Numeral ('+' :: ds) (Nat.ofDigitChars 10 ds 0 : Nat)
  | minus {ds : List Char} (hds : IsDigits ds) :
      Numeral ('-' :: ds) (-(Nat.ofDigitChars 10 ds 0 : Nat))

theorem Numeral.ne_nil {cs : List Char} {n : Int} (h : Numeral cs n) : cs ≠ [] := by
  cases h with
  | unsigned hds => exact hds.1
  | plus hds => exact List.cons_ne_nil _ _
  | minus hds => exact List.cons_ne_nil _ _

/-- Nothing but digits and signs stands in a numeral. -/
theorem Numeral.digit_or_sign {cs : List Char} {n : Int} (h : Numeral cs n) :
    ∀ c ∈ cs, c.isDigit = true ∨ c = '+' ∨ c = '-' := by
  intro c hc
  cases h with
  | unsigned hds => exact Or.inl (hds.2 c hc)
  | plus hds =>
      rcases List.mem_cons.mp hc with rfl | hc
      · exact Or.inr (Or.inl rfl)
      · exact Or.inl (hds.2 c hc)
  | minus hds =>
      rcases List.mem_cons.mp hc with rfl | hc
      · exact Or.inr (Or.inr rfl)
      · exact Or.inl (hds.2 c hc)

theorem nat?_eq_some_iff (cs : List Char) (n : Nat) :
    nat? cs = some n ↔ IsDigits cs ∧ Nat.ofDigitChars 10 cs 0 = n := by
  unfold nat? IsDigits
  by_cases hne : cs = []
  · simp [hne]
  · simp [hne]

theorem IsDigits.head_ne_sign {c : Char} {cs : List Char} (h : IsDigits (c :: cs)) :
    c ≠ '+' ∧ c ≠ '-' := by
  have hc := h.2 c List.mem_cons_self
  constructor
  · rintro rfl
    exact absurd hc (by decide)
  · rintro rfl
    exact absurd hc (by decide)

/-- A numeral is read exactly where there is one, with its value. -/
theorem int?_eq_some_iff (cs : List Char) (n : Int) : int? cs = some n ↔ Numeral cs n := by
  constructor
  · intro h
    unfold int? at h
    split at h
    · obtain ⟨k, hk, rfl⟩ := Option.map_eq_some_iff.mp h
      obtain ⟨hds, rfl⟩ := (nat?_eq_some_iff _ k).mp hk
      exact .plus hds
    · obtain ⟨k, hk, rfl⟩ := Option.map_eq_some_iff.mp h
      obtain ⟨hds, rfl⟩ := (nat?_eq_some_iff _ k).mp hk
      exact .minus hds
    · obtain ⟨k, hk, rfl⟩ := Option.map_eq_some_iff.mp h
      obtain ⟨hds, rfl⟩ := (nat?_eq_some_iff _ k).mp hk
      exact .unsigned hds
  · intro h
    cases h with
    | plus hds => simp [int?, (nat?_eq_some_iff _ _).mpr ⟨hds, rfl⟩]
    | minus hds => simp [int?, (nat?_eq_some_iff _ _).mpr ⟨hds, rfl⟩]
    | unsigned hds =>
        -- Signs are looked for first, and a digit is none.
        cases cs with
        | nil => exact absurd rfl hds.1
        | cons c ds =>
            obtain ⟨hplus, hminus⟩ := hds.head_ne_sign
            have hread := (nat?_eq_some_iff (c :: ds) _).mpr ⟨hds, rfl⟩
            simp [int?, hplus, hminus, hread]

theorem Numeral.unique {cs : List Char} {m n : Int} (hm : Numeral cs m) (hn : Numeral cs n) :
    m = n := by
  rw [← int?_eq_some_iff] at hm hn
  exact Option.some.inj (hm.symm.trans hn)

/-- A numeral of 64 bits is read exactly where there is one, with its value. -/
theorem int64?_eq_some_iff (cs : List Char) (n : Int64) :
    int64? cs = some n ↔ Numeral cs n.toInt := by
  rw [← int?_eq_some_iff]
  unfold int64?
  constructor
  · intro h
    obtain ⟨k, hk, hn⟩ := Option.bind_eq_some_iff.mp h
    split at hn
    · next hrange =>
        have heq : Int64.ofInt k = n := Option.some.inj hn
        rw [hk, ← heq, Int64.toInt_ofInt_of_le hrange.1 (Int.lt_of_le_of_lt hrange.2 (by decide))]
    · cases hn
  · intro h
    rw [h, Option.bind_some, if_pos ⟨n.minValue_le_toInt, n.toInt_le⟩, Int64.ofInt_toInt]

theorem int64?_eq_none_iff (cs : List Char) :
    int64? cs = none ↔ ¬ ∃ n : Int64, Numeral cs n.toInt := by
  rw [Option.eq_none_iff_forall_ne_some]
  simp [int64?_eq_some_iff]

theorem isDigits_digits (n : Nat) : IsDigits (digits n) :=
  ((nat?_eq_some_iff (digits n) n).mp (nat?_digits n)).1

/-- What is written for a number is a numeral of it. -/
theorem numeral_numeral (n : Int) : Numeral (numeral n) n := by
  have hvalue (k : Nat) : Nat.ofDigitChars 10 (digits k) 0 = k :=
    ((nat?_eq_some_iff (digits k) k).mp (nat?_digits k)).2
  cases n with
  | ofNat k =>
      have h := Numeral.unsigned (isDigits_digits k)
      rw [hvalue] at h
      exact h
  | negSucc k =>
      have h := Numeral.minus (isDigits_digits (k + 1))
      rw [hvalue] at h
      exact h

/-- What is written for a 64-bit integer is read as that integer. -/
theorem int64?_ofInt64 (n : Int64) : int64? (ofInt64 n).toList = some n := by
  rw [int64?_eq_some_iff, ofInt64, String.toList_ofList]
  exact numeral_numeral n.toInt

end Decimal
end Fifo
