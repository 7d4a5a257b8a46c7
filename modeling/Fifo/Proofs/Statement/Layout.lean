import Fifo.Statement.Phrase
import Mathlib.Data.List.DropRight
import Mathlib.Data.List.TakeWhile
import Mathlib.Logic.ExistsUnique

/-!
# How an instruction is laid out

A text that is not blank has exactly one layout: a keyword, perhaps an argument, and blanks before,
between and behind them.  The phrase that is read from the text has the keyword and the argument of
that layout (`Layout.Proper.ofString?_text`), so the blanks outside the argument do not count.

`Layout.ofText` finds the layout of a text; it is only used to show that there is one and that
there is no other (`Layout.existsUnique_proper`).
-/

namespace Fifo
namespace Text

/-- Are all characters blanks? -/
def AllBlank (cs : List Char) : Prop :=
  ∀ c ∈ cs, isBlank c = true

instance (cs : List Char) : Decidable (AllBlank cs) :=
  decidable_of_iff (cs.all isBlank = true) List.all_eq_true

/-- A text that begins and ends with characters that are no blanks. -/
structure Solid (cs : List Char) : Prop where
  head : ∃ c, cs.head? = some c ∧ isBlank c = false
  last : ∃ c, cs.getLast? = some c ∧ isBlank c = false

theorem solid_of_forall {cs : List Char} (hne : cs ≠ []) (hcs : ∀ c ∈ cs, isBlank c = false) :
    Solid cs := by
  constructor
  · have hhead := List.head?_eq_some_head hne
    exact ⟨_, hhead, hcs _ (List.mem_of_head? hhead)⟩
  · have hlast := List.getLast?_eq_some_getLast hne
    exact ⟨_, hlast, hcs _ (List.mem_of_getLast? hlast)⟩

/-- A run of characters that satisfy a predicate ends where the first one fails it. -/
theorem span_append {p : Char → Bool} {run rest : List Char} (hrun : ∀ c ∈ run, p c = true)
    (hrest : ∀ c, rest.head? = some c → p c = false) :
    (run ++ rest).takeWhile p = run ∧ (run ++ rest).dropWhile p = rest := by
  rw [List.takeWhile_append_of_pos hrun, List.dropWhile_append_of_pos hrun]
  cases rest with
  | nil => simp
  | cons c rest => simp [hrest c rfl]

theorem eq_false_of_head?_dropWhile {p : Char → Bool} {cs : List Char} {c : Char}
    (h : (cs.dropWhile p).head? = some c) : p c = false := by
  have hstop := List.head?_dropWhile_not p cs
  rw [h] at hstop
  exact hstop

theorem solid_rdropWhile {cs : List Char} {c : Char} (hhead : cs.head? = some c)
    (hc : isBlank c = false) : Solid (cs.rdropWhile isBlank) := by
  have hne : cs.rdropWhile isBlank ≠ [] := by
    intro hnil
    have hall := List.rdropWhile_eq_nil_iff.mp hnil c (List.mem_of_head? hhead)
    rw [hc] at hall
    cases hall
  constructor
  · obtain ⟨d, hd⟩ : ∃ d, (cs.rdropWhile isBlank).head? = some d :=
      ⟨_, List.head?_eq_some_head hne⟩
    obtain ⟨tail, htail⟩ := List.rdropWhile_prefix isBlank (l := cs)
    rw [← htail, List.head?_append, hd] at hhead
    exact ⟨d, hd, Option.some.inj hhead ▸ hc⟩
  · have hlast := List.rdropWhile_last_not isBlank cs hne
    exact ⟨_, List.getLast?_eq_some_getLast hne, by simpa using hlast⟩

theorem dropEndWhile_append {p : Char → Bool} {cs run : List Char} (hrun : ∀ c ∈ run, p c = true) :
    dropEndWhile p (cs ++ run) = dropEndWhile p cs := by
  have hreverse : ∀ c ∈ run.reverse, p c = true := fun c hc => hrun c (List.mem_reverse.mp hc)
  rw [dropEndWhile, List.reverse_append, List.dropWhile_append_of_pos hreverse, dropEndWhile]

theorem dropEndWhile_of_getLast? {p : Char → Bool} {cs : List Char} {c : Char}
    (hlast : cs.getLast? = some c) (hc : p c = false) : dropEndWhile p cs = cs := by
  obtain ⟨front, rfl⟩ := List.getLast?_eq_some_iff.mp hlast
  exact dropEndWhile_concat_of_neg front hc

end Text

open Text

/-- The parts of a text, in order. -/
structure Layout where
  before : List Char
  keyword : List Char
  gap : List Char
  argument : List Char
  after : List Char

namespace Layout

/-- The text that is laid out. -/
def text (l : Layout) : List Char :=
  l.before ++ (l.keyword ++ (l.gap ++ (l.argument ++ l.after)))

/-- The keyword is a word, blanks surround it, and an argument is set off from it.  Where there is
no argument, all blanks behind the keyword are in one place. -/
structure Proper (l : Layout) : Prop where
  before_blank : AllBlank l.before
  gap_blank : AllBlank l.gap
  after_blank : AllBlank l.after
  keyword_ne_nil : l.keyword ≠ []
  keyword_solid : ∀ c ∈ l.keyword, isBlank c = false
  argument_solid : (l.argument = [] ∧ l.after = []) ∨ (l.gap ≠ [] ∧ Solid l.argument)

/-- The layout of a text. -/
def ofText (cs : List Char) : Layout :=
  let front := cs.dropWhile isBlank
  let back := front.dropWhile (!isBlank ·)
  let rest := back.dropWhile isBlank
  { before := cs.takeWhile isBlank
    keyword := front.takeWhile (!isBlank ·)
    gap := back.takeWhile isBlank
    argument := rest.rdropWhile isBlank
    after := rest.rtakeWhile isBlank }

theorem text_ofText (cs : List Char) : (ofText cs).text = cs := by
  unfold ofText text
  simp only [List.rdropWhile_append_rtakeWhile, List.takeWhile_append_dropWhile]

theorem Proper.solid_keyword {l : Layout} (h : l.Proper) : Solid l.keyword :=
  solid_of_forall h.keyword_ne_nil h.keyword_solid

theorem Proper.not_blank_keyword {l : Layout} (h : l.Proper) :
    ∀ c ∈ l.keyword, (!isBlank c) = true := by
  intro c hc
  rw [h.keyword_solid c hc]
  rfl

/-- What stands behind the keyword begins with a blank, if there is anything. -/
theorem Proper.head?_behind_keyword {l : Layout} (h : l.Proper) {c : Char}
    (hc : (l.gap ++ (l.argument ++ l.after)).head? = some c) : isBlank c = true := by
  cases hgap : l.gap with
  | nil =>
      -- Without a gap there is no argument, and then nothing behind it either.
      rcases h.argument_solid with ⟨hargument, hafter⟩ | ⟨hne, -⟩
      · simp [hgap, hargument, hafter] at hc
      · exact absurd hgap hne
  | cons g gs =>
      rw [hgap, List.cons_append, List.head?_cons] at hc
      have heq : g = c := Option.some.inj hc
      exact heq ▸ h.gap_blank g (by rw [hgap]; exact List.mem_cons_self)

/-- What stands behind the gap begins with no blank, if there is anything. -/
theorem Proper.head?_behind_gap {l : Layout} (h : l.Proper) {c : Char}
    (hc : (l.argument ++ l.after).head? = some c) : isBlank c = false := by
  rcases h.argument_solid with ⟨hargument, hafter⟩ | ⟨-, hsolid⟩
  · simp [hargument, hafter] at hc
  · obtain ⟨d, hd, hblank⟩ := hsolid.head
    rw [List.head?_append, hd] at hc
    cases hc
    exact hblank

theorem Proper.rdropWhile_argument {l : Layout} (h : l.Proper) :
    (l.argument ++ l.after).rdropWhile isBlank = l.argument := by
  change dropEndWhile isBlank (l.argument ++ l.after) = l.argument
  rcases h.argument_solid with ⟨hargument, hafter⟩ | ⟨-, hsolid⟩
  · rw [hargument, hafter]
    rfl
  · obtain ⟨c, hc, hblank⟩ := hsolid.last
    rw [dropEndWhile_append h.after_blank, dropEndWhile_of_getLast? hc hblank]

/-- A proper layout is found again in its text: there is no other. -/
theorem Proper.ofText_text {l : Layout} (h : l.Proper) : ofText l.text = l := by
  obtain ⟨k, hk, hkblank⟩ := h.solid_keyword.head
  have hfront : ∀ c, (l.keyword ++ (l.gap ++ (l.argument ++ l.after))).head? = some c →
      isBlank c = false := by
    intro c hc
    rw [List.head?_append, hk] at hc
    cases hc
    exact hkblank
  have hback : ∀ c, (l.gap ++ (l.argument ++ l.after)).head? = some c →
      (!isBlank c) = false := by
    intro c hc
    rw [h.head?_behind_keyword hc]
    rfl
  obtain ⟨hbefore₁, hbefore₂⟩ := span_append h.before_blank hfront
  obtain ⟨hkeyword₁, hkeyword₂⟩ := span_append h.not_blank_keyword hback
  obtain ⟨hgap₁, hgap₂⟩ := span_append h.gap_blank (fun c hc => h.head?_behind_gap hc)
  have hargument := h.rdropWhile_argument
  have hafter : (l.argument ++ l.after).rtakeWhile isBlank = l.after := by
    have hall : (l.argument ++ l.after).rdropWhile isBlank ++
        (l.argument ++ l.after).rtakeWhile isBlank = l.argument ++ l.after :=
      List.rdropWhile_append_rtakeWhile
    rw [hargument] at hall
    exact List.append_cancel_left hall
  unfold ofText text
  simp only [hbefore₁, hbefore₂, hkeyword₁, hkeyword₂, hgap₁, hgap₂, hargument, hafter]

/-- A text that is not blank has a proper layout. -/
theorem proper_ofText {cs : List Char} (hcs : ¬ AllBlank cs) : (ofText cs).Proper := by
  refine ⟨fun c hc => List.mem_takeWhile_imp hc, fun c hc => List.mem_takeWhile_imp hc,
    fun c hc => List.mem_rtakeWhile_imp hc, ?_, ?_, ?_⟩
  · -- The keyword begins where the blanks before it end.
    cases hfront : cs.dropWhile isBlank with
    | nil => exact absurd (List.dropWhile_eq_nil_iff.mp hfront) hcs
    | cons c rest =>
        have hc : isBlank c = false :=
          eq_false_of_head?_dropWhile (by rw [hfront]; rfl)
        simp [ofText, hfront, hc]
  · intro c hc
    have hsolid := List.mem_takeWhile_imp hc
    simpa using hsolid
  · -- There is an argument if anything is left behind the gap.
    unfold ofText
    simp only
    generalize hback : (cs.dropWhile isBlank).dropWhile (!isBlank ·) = back
    cases hrest : back.dropWhile isBlank with
    | nil => exact Or.inl ⟨rfl, rfl⟩
    | cons c rest =>
        have hc : isBlank c = false :=
          eq_false_of_head?_dropWhile (by rw [hrest]; rfl)
        refine Or.inr ⟨?_, solid_rdropWhile rfl hc⟩
        intro hgap
        -- Without a gap, the blank that ended the keyword would begin the argument.
        have hsame : back = c :: rest := by
          rw [← List.takeWhile_append_dropWhile (p := isBlank) (l := back), hgap, hrest]
          rfl
        have hblank : (!isBlank c) = false :=
          eq_false_of_head?_dropWhile (by rw [hback, hsame]; rfl)
        rw [hc] at hblank
        cases hblank

theorem existsUnique_proper {cs : List Char} (hcs : ¬ AllBlank cs) :
    ∃! l : Layout, l.Proper ∧ l.text = cs := by
  refine ⟨ofText cs, ⟨proper_ofText hcs, text_ofText cs⟩, ?_⟩
  rintro l ⟨hproper, rfl⟩
  exact hproper.ofText_text.symm

theorem Proper.dropWhile_text {l : Layout} (h : l.Proper) :
    l.text.dropWhile isBlank = l.keyword ++ (l.gap ++ (l.argument ++ l.after)) := by
  obtain ⟨k, hk, hblank⟩ := h.solid_keyword.head
  refine (span_append h.before_blank ?_).2
  intro c hc
  rw [List.head?_append, hk] at hc
  exact Option.some.inj hc ▸ hblank

/-- Without the blanks at its ends, a text is its keyword, or this with the argument set off. -/
theorem Proper.trim_text {l : Layout} (h : l.Proper) :
    trim isBlank l.text =
      l.keyword ++ if l.argument = [] then [] else l.gap ++ l.argument := by
  rw [trim, h.dropWhile_text]
  rcases h.argument_solid with ⟨hargument, hafter⟩ | ⟨-, hsolid⟩
  · rw [if_pos hargument, hargument, hafter, List.append_nil, List.append_nil, List.append_nil,
      dropEndWhile_append h.gap_blank]
    obtain ⟨c, hc, hblank⟩ := h.solid_keyword.last
    exact dropEndWhile_of_getLast? hc hblank
  · obtain ⟨c, hc, hblank⟩ := hsolid.last
    have hne : l.argument ≠ [] := by
      rintro hnil
      simp [hnil] at hc
    rw [if_neg hne, ← List.append_assoc, ← List.append_assoc, dropEndWhile_append h.after_blank,
      dropEndWhile_of_getLast? ?_ hblank, List.append_assoc]
    rw [List.getLast?_append, hc]
    rfl

/-- The phrase of a text has the keyword and the argument of its layout. -/
theorem Proper.ofString?_text {l : Layout} (h : l.Proper) :
    Phrase.ofString? (String.ofList l.text) =
      some ⟨String.ofList l.keyword, String.ofList l.argument⟩ := by
  have htrim := h.trim_text
  generalize hback : (if l.argument = [] then [] else l.gap ++ l.argument) = back at htrim
  have hblank : ∀ c, back.head? = some c → (!isBlank c) = false := by
    intro c hc
    by_cases hne : l.argument = []
    · simp [← hback, hne] at hc
    · rw [if_neg hne] at hback
      have hbehind : (l.gap ++ (l.argument ++ l.after)).head? = some c := by
        rw [← List.append_assoc, hback, List.head?_append, hc]
        rfl
      rw [h.head?_behind_keyword hbehind]
      rfl
  have hargument : back.dropWhile isBlank = l.argument := by
    by_cases hne : l.argument = []
    · simp [← hback, hne]
    · rw [← hback, if_neg hne]
      refine (span_append h.gap_blank ?_).2
      intro c hc
      refine h.head?_behind_gap ?_
      rw [List.head?_append, hc]
      rfl
  obtain ⟨hword, hrest⟩ := span_append h.not_blank_keyword hblank
  have hsome : ¬ (l.keyword ++ back).isEmpty = true := by
    simp [h.keyword_ne_nil]
  unfold Phrase.ofString? Phrase.ofTrimmed
  simp only [String.toList_ofList, htrim, if_neg hsome, hword, hrest, hargument]

end Layout
end Fifo
