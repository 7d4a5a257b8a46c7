import Fifo.Proofs.Statement.Grammar
import Fifo.Statement.Canonical

/-!
# Reading back what is written

Canonical text is read as the statement it was written for, provided that the statement is
expressible, and a statement that is read from any text is expressible.

There is no way to write a backslash and an n that stand for themselves, nor a label with blanks at
its ends or one that is a numeral; everything else can be written.  A line feed at the end of a
label survives because a space closes the line.
-/

namespace Fifo

open Text

/-- A value that some literal denotes. -/
def Value.Expressible : Value → Prop
  | .integer _ => True
  | .text s => ¬ Literal.HasMark s.toList

/-- A target that some argument aims at. -/
def Target.Expressible : Target → Prop
  | .line _ => True
  | .label name => Solid name.toList ∧ ¬ ∃ n : Int64, Decimal.Numeral name.toList n.toInt

/-- A statement that some line stands for: all that is in it can be written. -/
def Statement.Expressible : Statement → Prop
  | .act _ => True
  | .goto target => target.Expressible
  | .branch _ target => target.Expressible
  | .push literal => literal.Expressible
  | .print literal => ∀ v, literal = some v → v.Expressible
  | .read prompt => ∀ v, prompt = some v → v.Expressible

theorem Decimal.Numeral.solid {cs : List Char} {n : Int} (h : Decimal.Numeral cs n) : Solid cs := by
  refine solid_of_forall h.ne_nil fun c hc => Bool.eq_false_iff.mpr fun hblank => ?_
  have hchar := h.digit_or_sign c hc
  simp only [isBlank, Bool.or_eq_true, beq_iff_eq] at hblank
  rcases hblank with (rfl | rfl) | rfl <;> revert hchar <;> decide

namespace Literal

theorem Denotes.solid {cs : List Char} {v : Value} (h : Denotes cs v) : Solid cs := by
  cases h with
  | text hinner =>
      constructor
      · exact ⟨quote, rfl, rfl⟩
      · refine ⟨quote, ?_, rfl⟩
        rw [← List.cons_append, List.getLast?_concat]
  | integer hcs => exact hcs.solid

theorem Denotes.expressible {cs : List Char} {v : Value} (h : Denotes cs v) : v.Expressible := by
  cases h with
  | @text inner out hinner =>
      rw [Value.Expressible, String.toList_ofList, ← (unescapes_iff inner out).mp hinner]
      exact not_hasMark_unescape inner
  | integer hcs => trivial

theorem denotes_write {v : Value} (h : v.Expressible) : Denotes (write v).toList v := by
  cases v with
  | integer n =>
      rw [write, Decimal.ofInt64, String.toList_ofList]
      exact .integer (Decimal.numeral_numeral n.toInt)
  | text s =>
      have hinner : Unescapes (escape s.toList) s.toList :=
        (unescapes_iff _ _).mpr (unescape_escape h)
      have hwritten : (write (.text s)).toList = quote :: (escape s.toList ++ [quote]) := by
        simp [write, quote]
      rw [hwritten]
      nth_rewrite 2 [← String.ofList_toList (s := s)]
      exact .text hinner

end Literal

namespace Target

theorem Aims.expressible {cs : List Char} {t : Target} (h : Aims cs t) (hcs : Solid cs) :
    t.Expressible := by
  cases h with
  | line hnumeral => trivial
  | label hnot =>
      rw [Expressible, String.toList_ofList]
      exact ⟨hcs, hnot⟩

theorem aims_render {t : Target} (h : t.Expressible) :
    Solid t.render.toList ∧ Aims t.render.toList t := by
  cases t with
  | line n =>
      have hnumeral := Decimal.numeral_numeral n.toInt
      rw [render, Decimal.ofInt64, String.toList_ofList]
      exact ⟨hnumeral.solid, .line hnumeral⟩
  | label name =>
      refine ⟨h.1, ?_⟩
      have haims := Aims.label h.2
      rwa [String.ofList_toList] at haims

end Target

/-- A keyword makes expressible statements only, if no blanks are left around its argument. -/
theorem Keyword.Takes.expressible {w : Keyword} {cs : List Char} {st : Statement}
    (h : w.Takes cs st) (hcs : cs = [] ∨ Solid cs) : st.Expressible := by
  cases h with
  | act a => trivial
  -- Only labels need the argument to be solid; literals are so by themselves.
  | goto hne haims => exact haims.expressible (hcs.resolve_left hne)
  | branch r hne haims => exact haims.expressible (hcs.resolve_left hne)
  | push hdenotes => exact hdenotes.expressible
  | printNothing => exact fun v hv => nomatch hv
  | print hdenotes =>
      rintro v ⟨rfl⟩
      exact hdenotes.expressible
  | readNothing => exact fun v hv => nomatch hv
  | read hdenotes =>
      rintro v ⟨rfl⟩
      exact hdenotes.expressible

namespace Statement

/-- The keyword of an expressible statement takes the argument that is written behind it. -/
theorem takes_argument {st : Statement} (h : st.Expressible) :
    (st.argument.toList = [] ∨ Solid st.argument.toList) ∧
      st.keyword.Takes st.argument.toList st := by
  have hliteral : ∀ v : Value, v.Expressible → Solid (Literal.write v).toList ∧
      Literal.Denotes (Literal.write v).toList v := by
    intro v hv
    exact ⟨(Literal.denotes_write hv).solid, Literal.denotes_write hv⟩
  have htarget : ∀ t : Target, t.Expressible → t.render.toList ≠ [] := by
    intro t ht hnil
    obtain ⟨c, hc, -⟩ := (Target.aims_render ht).1.head
    rw [hnil] at hc
    cases hc
  -- What is written behind the keyword is a literal or a target again, or nothing.
  cases st with
  | act a => exact ⟨Or.inl rfl, .act a⟩
  | goto target =>
      obtain ⟨hsolid, haims⟩ := Target.aims_render h
      exact ⟨Or.inr hsolid, .goto (htarget target h) haims⟩
  | branch relation target =>
      obtain ⟨hsolid, haims⟩ := Target.aims_render h
      exact ⟨Or.inr hsolid, .branch relation (htarget target h) haims⟩
  | push literal =>
      obtain ⟨hsolid, hdenotes⟩ := hliteral literal h
      exact ⟨Or.inr hsolid, .push hdenotes⟩
  | print literal =>
      cases literal with
      | none => exact ⟨Or.inl rfl, .printNothing⟩
      | some v =>
          obtain ⟨hsolid, hdenotes⟩ := hliteral v (h v rfl)
          exact ⟨Or.inr hsolid, .print hdenotes⟩
  | read prompt =>
      cases prompt with
      | none => exact ⟨Or.inl rfl, .readNothing⟩
      | some v =>
          obtain ⟨hsolid, hdenotes⟩ := hliteral v (h v rfl)
          exact ⟨Or.inr hsolid, .read hdenotes⟩

/-- How canonical text is laid out.  Without an argument, both spaces stand behind the keyword. -/
def layout (st : Statement) : Layout :=
  if st.argument.toList = [] then ⟨[], st.keyword.spelling.toList, [' ', ' '], [], []⟩
  else ⟨[], st.keyword.spelling.toList, [' '], st.argument.toList, [' ']⟩

theorem layout_keyword (st : Statement) : st.layout.keyword = st.keyword.spelling.toList := by
  unfold layout
  split <;> rfl

theorem layout_argument (st : Statement) : st.layout.argument = st.argument.toList := by
  unfold layout
  split
  · next hnil => exact hnil.symm
  · rfl

theorem layout_text (st : Statement) : st.layout.text = st.canonical.toList := by
  unfold layout
  split
  · next hnil => simp [Layout.text, canonical, hnil]
  · simp [Layout.text, canonical]

theorem layout_proper {st : Statement}
    (h : st.argument.toList = [] ∨ Solid st.argument.toList) : st.layout.Proper := by
  have hblank : ∀ c, c = ' ' → isBlank c = true := by
    rintro c rfl
    rfl
  obtain ⟨hne, hword, -⟩ := st.keyword.spelling_spec
  unfold layout
  split
  · exact ⟨by simp [AllBlank], by simp [AllBlank, hblank], by simp [AllBlank], hne, hword,
      Or.inl ⟨rfl, rfl⟩⟩
  · next hargument =>
      exact ⟨by simp [AllBlank], by simp [AllBlank, hblank], by simp [AllBlank, hblank], hne, hword,
        Or.inr ⟨by simp, h.resolve_left hargument⟩⟩

/-- The space that closes canonical text keeps the line ends before it. -/
theorem toList_text_canonical (st : Statement) :
    (Line.ofString st.canonical).text.toList = st.canonical.toList := by
  rw [Line.toList_text_ofString]
  have hspace : st.canonical.toList =
      (st.keyword.spelling.toList ++ ' ' :: st.argument.toList) ++ [' '] := by
    simp [canonical]
  rw [hspace]
  exact dropEndWhile_concat_of_neg _ rfl

theorem decode_canonical {st : Statement} (h : st.Expressible) (k : Nat) :
    (Line.ofString st.canonical).decode k = .ok (some st) := by
  obtain ⟨hargument, htakes⟩ := takes_argument h
  have hproper := layout_proper hargument
  have hidle : ¬ Line.Idle (Line.ofString st.canonical).text.toList := by
    rw [toList_text_canonical, ← layout_text]
    refine Line.not_idle_of_proper hproper ?_
    rw [layout_keyword]
    exact st.keyword.spelling_spec.2.2
  rw [Line.decode_of_layout hidle hproper (by rw [layout_text, toList_text_canonical]) k,
    Phrase.decode_eq_some_iff, layout_keyword, layout_argument]
  exact ⟨st.keyword, rfl, htakes⟩

theorem expressible_of_decode {l : Line} {k : Nat} {st : Statement}
    (h : l.decode k = .ok (some st)) : st.Expressible := by
  obtain ⟨layout, hproper, -, hdecode⟩ := Line.exists_layout_of_ne_none (by rw [h]; simp)
  rw [hdecode, Phrase.decode_eq_some_iff] at h
  obtain ⟨w, -, htakes⟩ := h
  exact htakes.expressible (hproper.argument_solid.imp And.left And.right)

/-- **Decoding undoes writing.**  An expressible statement is decoded from its canonical text, in
every line, and every statement that is decoded from any text is expressible, so that its canonical
text stands for the same as that text. -/
theorem decode_undoes_canonical :
    (∀ (st : Statement) (k : Nat), st.Expressible →
      (Line.ofString st.canonical).decode k = .ok (some st)) ∧
    ∀ (t : String) (k : Nat) (st : Statement), (Line.ofString t).decode k = .ok (some st) →
      st.Expressible ∧ (Line.ofString st.canonical).decode k = (Line.ofString t).decode k := by
  refine ⟨fun st k h => decode_canonical h k, fun t k st h => ?_⟩
  have hexpressible := expressible_of_decode h
  exact ⟨hexpressible, (decode_canonical hexpressible k).trans h.symm⟩

/-- Quotation marks, a backslash before a line feed and a backslash at the end are all read back. -/
theorem decode_undoes_canonical_push :
    (Line.ofString "PUSH \"\"a\" \\\\n\\\" ").decode 3 =
      .ok (some (.push (.text "\"a\" \\\n\\"))) := by
  have hexpressible : (push (.text "\"a\" \\\n\\")).Expressible := by
    unfold Expressible Value.Expressible
    decide
  have htext : (push (.text "\"a\" \\\n\\")).canonical = "PUSH \"\"a\" \\\\n\\\" " := by
    decide
  rw [← htext]
  exact decode_undoes_canonical.1 _ 3 hexpressible

end Statement
end Fifo
