import Fifo.Statement.Canonical
import Fifo.Statement.Literal

/-!
# Marks for line feeds

In a quoted text a backslash with an n behind it is a mark that stands for a line feed.  There is no
way to write such a mark for itself, so the texts that can be written are those without one
(`not_hasMark_unescape`), and on these reading undoes writing (`unescape_escape`).

`Literal.Unescapes` describes the reading of marks without doing it: what stands between the marks
is kept, and each mark becomes a line feed.
-/

namespace Fifo
namespace Literal

/-- The two characters that stand for a line feed. -/
def mark : List Char := ['\\', 'n']

/-- Does a mark occur in the text? -/
def HasMark (cs : List Char) : Prop :=
  mark <:+: cs

/-- A text with marks, and the text it stands for. -/
inductive Unescapes : List Char → List Char → Prop
  | plain {cs : List Char} (hcs : ¬ HasMark cs) : Unescapes cs cs
  | marked (cs : List Char) {rest out : List Char} (hcs : ¬ HasMark cs)
      (hrest : Unescapes rest out) :
      Unescapes (cs ++ mark ++ rest) (cs ++ '\n' :: out)

theorem not_hasMark_nil : ¬ HasMark [] := by
  intro h
  cases List.eq_nil_of_infix_nil h

/-- A mark is at the beginning of a text or behind its first character. -/
theorem hasMark_cons {c : Char} {cs : List Char} :
    HasMark (c :: cs) ↔ (c = '\\' ∧ cs.head? = some 'n') ∨ HasMark cs := by
  unfold HasMark mark
  rw [List.infix_cons_iff]
  cases cs with
  | nil => simp
  | cons d ds => simp [List.cons_prefix_cons, eq_comm]

instance decidableHasMark : (cs : List Char) → Decidable (HasMark cs)
  | [] => isFalse not_hasMark_nil
  | _ :: cs =>
      have := decidableHasMark cs
      decidable_of_iff _ hasMark_cons.symm

theorem unescape_cons {c : Char} {cs : List Char} (h : ¬ (c = '\\' ∧ cs.head? = some 'n')) :
    unescape (c :: cs) = c :: unescape cs := by
  rw [unescape]
  rintro rest rfl rfl
  exact h ⟨rfl, rfl⟩

theorem not_mark_of_forall {c : Char} {cs : List Char}
    (h : ∀ rest, c = '\\' → cs = 'n' :: rest → False) :
    ¬ (c = '\\' ∧ cs.head? = some 'n') := by
  rintro ⟨hc, hhead⟩
  obtain ⟨rest, hcs⟩ := List.head?_eq_some_iff.mp hhead
  exact h rest hc hcs

theorem unescape_mark (cs : List Char) : unescape (mark ++ cs) = '\n' :: unescape cs := rfl

/-- A text without marks is kept, whatever follows it that does not complete one. -/
theorem unescape_append {cs rest : List Char} (hcs : ¬ HasMark cs) (hrest : rest.head? ≠ some 'n') :
    unescape (cs ++ rest) = cs ++ unescape rest := by
  induction cs with
  | nil => rfl
  | cons c cs ih =>
      rw [hasMark_cons, not_or] at hcs
      -- A mark across the seam would need an n at the head of the rest.
      have hnot : ¬ (c = '\\' ∧ (cs ++ rest).head? = some 'n') := by
        rintro ⟨hc, hhead⟩
        cases cs with
        | nil => exact hrest hhead
        | cons d ds => exact hcs.1 ⟨hc, hhead⟩
      rw [List.cons_append, unescape_cons hnot, ih hcs.2, List.cons_append]

theorem Unescapes.cons {c : Char} {cs out : List Char} (h : Unescapes cs out)
    (hc : ¬ (c = '\\' ∧ cs.head? = some 'n')) : Unescapes (c :: cs) (c :: out) := by
  cases h with
  | plain hcs =>
      refine .plain ?_
      rw [hasMark_cons, not_or]
      exact ⟨hc, hcs⟩
  | marked front hcs hrest =>
      -- The new character joins what stands before the first mark.
      refine .marked (c :: front) ?_ hrest
      rw [hasMark_cons, not_or]
      refine ⟨?_, hcs⟩
      rintro ⟨rfl, hhead⟩
      refine hc ⟨rfl, ?_⟩
      rw [List.append_assoc, List.head?_append, hhead]
      rfl

/-- Reading gives the text that a text with marks stands for, and no other. -/
theorem unescapes_iff (cs out : List Char) : Unescapes cs out ↔ unescape cs = out := by
  constructor
  · intro h
    induction h with
    | plain hcs =>
        have hkept := unescape_append hcs (show ([] : List Char).head? ≠ some 'n' by simp)
        simpa [unescape] using hkept
    | marked front hcs hrest ih =>
        rw [List.append_assoc, unescape_append hcs (by simp [mark]), unescape_mark, ih]
  · rintro rfl
    induction cs using unescape.induct with
    | case1 cs ih => exact .marked [] not_hasMark_nil ih
    | case2 c cs hnot ih =>
        have hc := not_mark_of_forall hnot
        rw [unescape_cons hc]
        exact ih.cons hc
    | case3 => exact .plain not_hasMark_nil

theorem head?_of_head?_unescape {cs : List Char} (h : (unescape cs).head? = some 'n') :
    cs.head? = some 'n' := by
  cases cs with
  | nil => exact h
  | cons c cs =>
      by_cases hc : c = '\\' ∧ cs.head? = some 'n'
      · obtain ⟨rfl, hhead⟩ := hc
        obtain ⟨rest, rfl⟩ := List.head?_eq_some_iff.mp hhead
        cases h
      · rw [unescape_cons hc] at h
        exact h

/-- What is read has no marks in it. -/
theorem not_hasMark_unescape (cs : List Char) : ¬ HasMark (unescape cs) := by
  induction cs using unescape.induct with
  | case1 cs ih =>
      rw [unescape, hasMark_cons, not_or]
      exact ⟨by simp, ih⟩
  | case2 c cs hnot ih =>
      have hc := not_mark_of_forall hnot
      rw [unescape_cons hc, hasMark_cons, not_or]
      exact ⟨fun h => hc ⟨h.1, head?_of_head?_unescape h.2⟩, ih⟩
  | case3 => exact not_hasMark_nil

theorem head?_of_head?_escape {cs : List Char} (h : (escape cs).head? = some 'n') :
    cs.head? = some 'n' := by
  cases cs with
  | nil => exact h
  | cons c cs =>
      rw [escape] at h
      split at h
      · cases h
      · exact h

/-- Reading undoes writing on texts without marks. -/
theorem unescape_escape {cs : List Char} (h : ¬ HasMark cs) : unescape (escape cs) = cs := by
  induction cs with
  | nil => rfl
  | cons c cs ih =>
      rw [hasMark_cons, not_or] at h
      rw [escape]
      by_cases hc : c = '\n'
      · rw [if_pos hc, unescape, ih h.2, hc]
      · rw [if_neg hc, unescape_cons (fun hmark => h.1 ⟨hmark.1, head?_of_head?_escape hmark.2⟩),
          ih h.2]

end Literal
end Fifo
