/-!
# Decimal numerals

Writing integers in decimal and reading them back. A numeral is one optional sign followed by one
or more digits, with any number of leading zeros; nothing else is a numeral.

The main fact is `nat?_digits`: the digits written for a number read back as that number.
-/

namespace Fifo
namespace Decimal

/-- The digits of a natural number, the most significant first. -/
def digits (n : Nat) : List Char :=
  Nat.toDigits 10 n

/-- The numeral of an integer: a minus sign only where it is negative. -/
def numeral : Int → List Char
  | .ofNat n => digits n
  | .negSucc n => '-' :: digits (n + 1)

def ofNat (n : Nat) : String :=
  String.ofList (digits n)

def ofInt64 (n : Int64) : String :=
  String.ofList (numeral n.toInt)

/-- Reads one or more digits. -/
def nat? (cs : List Char) : Option Nat :=
  if !cs.isEmpty && cs.all Char.isDigit then some (Nat.ofDigitChars 10 cs 0) else none

/-- Reads a numeral: at most one sign, then digits. -/
def int? : List Char → Option Int
  | '+' :: cs => (nat? cs).map Int.ofNat
  | '-' :: cs => (nat? cs).map fun n => -Int.ofNat n
  | cs => (nat? cs).map Int.ofNat

/-- Reads a numeral whose value fits into 64 bits. -/
def int64? (cs : List Char) : Option Int64 :=
  (int? cs).bind fun n =>
    if Int64.minValue.toInt ≤ n ∧ n ≤ Int64.maxValue.toInt then some (Int64.ofInt n) else none

/-- Reads an unsigned 64-bit number; a plus sign may stand before the digits. -/
def uint64? (cs : List Char) : Option UInt64 :=
  let unsigned := match cs with
    | '+' :: ds => ds
    | ds => ds
  (nat? unsigned).bind fun n => if n < UInt64.size then some (UInt64.ofNat n) else none

/-- The digits written for a number read back as that number. -/
theorem nat?_digits (n : Nat) : nat? (digits n) = some n := by
  have hne : digits n ≠ [] := Nat.toDigits_ne_nil
  have hall : (digits n).all Char.isDigit = true := by
    rw [List.all_eq_true]
    intro c hc
    exact Nat.isDigit_of_mem_toDigits (Nat.succ_pos 9) (Nat.le_refl 10) hc
  have hback : Nat.ofDigitChars 10 (digits n) 0 = n := Nat.ofDigitChars_ten_toDigits
  simp [nat?, hne, hall, hback]

theorem digits_injective {m n : Nat} (h : digits m = digits n) : m = n := by
  have := congrArg nat? h
  simpa [nat?_digits] using this

end Decimal
end Fifo
