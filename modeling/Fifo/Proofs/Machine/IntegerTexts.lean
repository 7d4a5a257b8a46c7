import Fifo.Proofs.Machine.Step
import Fifo.Proofs.Statement.Grammar
import Fifo.Text.WhiteSpace
import Mathlib.Algebra.Group.Int.Defs

/-!
# Which texts are integers

There is one notion of an integer's text, `Decimal.Numeral` with a value of 64 bits, and it decides
in three places: behind `PUSH`, behind `GOTO`, and in what a user types.  The three differ in what
they drop from the ends of a text first: a source line drops blanks and line ends, a reply all white
space.  Blanks and line ends are white space, so on a text without white space at its ends
(`Text.Bare`) nothing is dropped anywhere, and the three agree.
-/

namespace Fifo
namespace Text

/-- The second text is the first one without the characters at its ends that satisfy a predicate. -/
structure Stripped (p : Char → Bool) (cs inner : List Char) : Prop where
  parts : ∃ before after, cs = before ++ (inner ++ after) ∧ (∀ c ∈ before, p c = true) ∧
    ∀ c ∈ after, p c = true
  head : ∀ c, inner.head? = some c → p c = false
  last : ∀ c, inner.getLast? = some c → p c = false

theorem Stripped.trim_eq {p : Char → Bool} {cs inner : List Char} (h : Stripped p cs inner) :
    trim p cs = inner := by
  obtain ⟨⟨before, after, rfl, hbefore, hafter⟩, hhead, hlast⟩ := h
  by_cases hinner : inner = []
  · have hall : ∀ c ∈ before ++ after, p c = true := by
      intro c hc
      exact (List.mem_append.mp hc).elim (hbefore c) (hafter c)
    rw [hinner, List.nil_append, trim, List.dropWhile_eq_nil_iff.mpr hall, dropEndWhile_nil]
  · have hfront : ∀ c, (inner ++ after).head? = some c → p c = false := by
      intro c hc
      rw [List.head?_append_of_ne_nil _ hinner] at hc
      exact hhead c hc
    have hend := List.getLast?_eq_some_getLast hinner
    rw [trim, (span_append hbefore hfront).2, dropEndWhile_append hafter,
      dropEndWhile_of_getLast? hend (hlast _ hend)]

/-- Trimming takes everything from the ends of a text that it should. -/
theorem stripped_trim (p : Char → Bool) (cs : List Char) : Stripped p cs (trim p cs) := by
  have hfront : cs.takeWhile p ++ cs.dropWhile p = cs := List.takeWhile_append_dropWhile
  -- What is left in front is parted once more, from its end.
  generalize hrest : cs.dropWhile p = rest at hfront
  have hback : trim p cs ++ (rest.reverse.takeWhile p).reverse = rest := by
    rw [trim, dropEndWhile, hrest, ← List.reverse_append, List.takeWhile_append_dropWhile,
      List.reverse_reverse]
  refine ⟨⟨cs.takeWhile p, (rest.reverse.takeWhile p).reverse, by rw [hback, hfront], ?_, ?_⟩,
    fun c hc => ?_, fun c hc => ?_⟩
  · exact fun c hc => List.mem_takeWhile_imp hc
  · exact fun c hc => List.mem_takeWhile_imp (List.mem_reverse.mp hc)
  · have hhead : (cs.dropWhile p).head? = some c := by
      rw [hrest, ← hback, List.head?_append, hc]
      rfl
    exact eq_false_of_head?_dropWhile hhead
  · rw [trim, dropEndWhile, List.getLast?_reverse] at hc
    exact eq_false_of_head?_dropWhile hc

/-- A text that begins and ends with characters that are no white space. -/
structure Bare (cs : List Char) : Prop where
  head : ∃ c, cs.head? = some c ∧ isWhiteSpace c = false
  last : ∃ c, cs.getLast? = some c ∧ isWhiteSpace c = false

/-- What separates the parts of a line, or ends it, is white space. -/
theorem isWhiteSpace_of_dropped {c : Char} (h : isBlank c = true ∨ isLineEnd c = true) :
    isWhiteSpace c = true := by
  simp only [isBlank, isLineEnd, Bool.or_eq_true, beq_iff_eq] at h
  rcases h with ((rfl | rfl) | rfl) | (rfl | rfl) <;> decide

theorem not_dropped_of_not_isWhiteSpace {c : Char} (h : isWhiteSpace c = false) :
    isBlank c = false ∧ isLineEnd c = false := by
  constructor
  · refine Bool.eq_false_iff.mpr fun hblank => ?_
    rw [isWhiteSpace_of_dropped (Or.inl hblank)] at h
    cases h
  · refine Bool.eq_false_iff.mpr fun hend => ?_
    rw [isWhiteSpace_of_dropped (Or.inr hend)] at h
    cases h

theorem bare_of_forall {cs : List Char} (hne : cs ≠ []) (hcs : ∀ c ∈ cs, isWhiteSpace c = false) :
    Bare cs := by
  have hhead := List.head?_eq_some_head hne
  have hlast := List.getLast?_eq_some_getLast hne
  exact ⟨⟨_, hhead, hcs _ (List.mem_of_head? hhead)⟩,
    ⟨_, hlast, hcs _ (List.mem_of_getLast? hlast)⟩⟩

theorem Bare.solid {cs : List Char} (h : Bare cs) : Solid cs := by
  obtain ⟨⟨c, hc, hspace⟩, d, hd, hspace'⟩ := h
  exact ⟨⟨c, hc, (not_dropped_of_not_isWhiteSpace hspace).1⟩,
    ⟨d, hd, (not_dropped_of_not_isWhiteSpace hspace').1⟩⟩

theorem Bare.stripped {cs : List Char} (h : Bare cs) : Stripped isWhiteSpace cs cs := by
  obtain ⟨⟨c, hc, hspace⟩, d, hd, hspace'⟩ := h
  refine ⟨⟨[], [], by simp, by simp, by simp⟩, fun e he => ?_, fun e he => ?_⟩
  · obtain rfl : c = e := Option.some.inj (hc.symm.trans he)
    exact hspace
  · obtain rfl : d = e := Option.some.inj (hd.symm.trans he)
    exact hspace'

theorem not_isWhiteSpace_of_isDigit {c : Char} (h : c.isDigit = true) : isWhiteSpace c = false := by
  simp only [Char.isDigit, Bool.and_eq_true, decide_eq_true_eq, ge_iff_le, UInt32.le_iff_toNat_le]
    at h
  have hlow : 48 ≤ c.toNat := h.1
  have hhigh : c.toNat ≤ 57 := h.2
  simp only [isWhiteSpace, CodeRange.anyContains, whiteSpace, List.any_cons, List.any_nil,
    CodeRange.contains, Bool.or_eq_false_iff, Bool.and_eq_false_iff, decide_eq_false_iff_not,
    and_true]
  omega

end Text

open Text

/-- A numeral is read exactly if its value lies within 64 bits. -/
theorem Decimal.Numeral.exists_int64?_iff {cs : List Char} {k : Int} (h : Decimal.Numeral cs k) :
    (∃ n, Decimal.int64? cs = some n) ↔ -2 ^ 63 ≤ k ∧ k ≤ 2 ^ 63 - 1 := by
  constructor
  · rintro ⟨n, hn⟩
    obtain rfl : k = n.toInt := h.unique ((Decimal.int64?_eq_some_iff cs n).mp hn)
    have hlow := n.le_toInt
    have hhigh := n.toInt_lt
    omega
  · rintro ⟨hlow, hhigh⟩
    refine ⟨Int64.ofInt k, (Decimal.int64?_eq_some_iff cs _).mpr ?_⟩
    rwa [Int64.toInt_ofInt_of_le (by omega) (by omega)]

/-- Numerals are written without white space. -/
theorem Decimal.Numeral.bare {cs : List Char} {n : Int} (h : Decimal.Numeral cs n) : Bare cs := by
  refine bare_of_forall h.ne_nil fun c hc => ?_
  rcases h.digit_or_sign c hc with hdigit | rfl | rfl
  · exact not_isWhiteSpace_of_isDigit hdigit
  · decide
  · decide

namespace Value

/-- White space apart, the text is a numeral of the integer. -/
def IntegerReply (s : String) (n : Int64) : Prop :=
  ∃ inner, Stripped isWhiteSpace s.toList inner ∧ Decimal.Numeral inner n.toInt

theorem integerReply_iff (s : String) (n : Int64) :
    IntegerReply s n ↔ Decimal.int64? (trimWhiteSpace s.toList) = some n := by
  rw [Decimal.int64?_eq_some_iff]
  constructor
  · rintro ⟨inner, hstripped, hnumeral⟩
    rw [trimWhiteSpace, hstripped.trim_eq]
    exact hnumeral
  · intro hnumeral
    exact ⟨_, stripped_trim isWhiteSpace s.toList, hnumeral⟩

theorem integerReply_of_bare {s : String} (h : Bare s.toList) (n : Int64) :
    IntegerReply s n ↔ Decimal.Numeral s.toList n.toInt := by
  rw [integerReply_iff, trimWhiteSpace, h.stripped.trim_eq, Decimal.int64?_eq_some_iff]

/-- A reply is an integer exactly if that is all it holds but white space. -/
theorem ofReply_eq_integer_iff (s : String) (n : Int64) :
    ofReply s = .integer n ↔ IntegerReply s n := by
  rw [integerReply_iff, ofReply]
  cases Decimal.int64? (trimWhiteSpace s.toList) <;> simp

/-- Any other reply is kept as it was typed. -/
theorem ofReply_eq_text {s : String} (h : ¬ ∃ n, IntegerReply s n) : ofReply s = .text s := by
  cases hread : ofReply s with
  | integer n => exact absurd ⟨n, (ofReply_eq_integer_iff s n).mp hread⟩ h
  | text t =>
      rw [ofReply] at hread
      split at hread
      · cases hread
      · exact hread.symm

theorem ofReply_render_iff (v : Value) :
    ofReply v.render = v ↔ v.isInteger = true ∨ ∃ s, v = .text s ∧ ¬ ∃ n, IntegerReply s n := by
  cases v with
  | integer n =>
      have hnumeral : Decimal.Numeral (Decimal.ofInt64 n).toList n.toInt :=
        (Decimal.int64?_eq_some_iff _ n).mp (Decimal.int64?_ofInt64 n)
      have hreply := (integerReply_of_bare hnumeral.bare n).mpr hnumeral
      exact iff_of_true ((ofReply_eq_integer_iff _ n).mpr hreply) (Or.inl rfl)
  | text s =>
      constructor
      · intro hread
        refine Or.inr ⟨s, rfl, ?_⟩
        rintro ⟨n, hreply⟩
        have hinteger : ofReply s = .integer n := (ofReply_eq_integer_iff s n).mpr hreply
        rw [show ofReply s = .text s from hread] at hinteger
        cases hinteger
      · rintro (hinteger | ⟨t, ht, hnot⟩)
        · cases hinteger
        · cases ht
          exact ofReply_eq_text hnot

end Value

theorem Literal.denotes_integer_iff (cs : List Char) (n : Int64) :
    Literal.Denotes cs (.integer n) ↔ Decimal.Numeral cs n.toInt := by
  constructor
  · intro h
    cases h with
    | integer hnumeral => exact hnumeral
  · exact .integer

theorem Target.aims_line_iff (cs : List Char) (n : Int64) :
    Target.Aims cs (.line n) ↔ Decimal.Numeral cs n.toInt := by
  constructor
  · intro h
    cases h with
    | line hnumeral => exact hnumeral
  · exact .line

namespace Line

/-- The line with a keyword and a text behind it, one space between them. -/
def spelled (w : Keyword) (s : String) : Line :=
  ofString (w.spelling ++ " " ++ s)

/-- How such a line is laid out. -/
def spelledLayout (w : Keyword) (s : String) : Layout :=
  ⟨[], w.spelling.toList, [' '], s.toList, []⟩

theorem spelledLayout_proper (w : Keyword) {s : String} (h : Bare s.toList) :
    (spelledLayout w s).Proper := by
  have hnone : AllBlank [] := by decide
  have hspace : AllBlank [' '] := by decide
  obtain ⟨hne, hword, -⟩ := w.spelling_spec
  exact ⟨hnone, hspace, hnone, hne, hword, Or.inr ⟨List.cons_ne_nil _ _, h.solid⟩⟩

/-- Nothing is dropped from a text that ends without white space. -/
theorem toList_text_spelled (w : Keyword) {s : String} (h : Bare s.toList) :
    (spelled w s).text.toList = (spelledLayout w s).text := by
  obtain ⟨c, hc, hspace⟩ := h.last
  have hlast : (w.spelling ++ " " ++ s).toList.getLast? = some c := by
    rw [String.toList_append, List.getLast?_append, hc]
    rfl
  rw [spelled, toList_text_ofString,
    dropEndWhile_of_getLast? hlast (not_dropped_of_not_isWhiteSpace hspace).2]
  simp [spelledLayout, Layout.text]

theorem decode_spelled (w : Keyword) {s : String} (h : Bare s.toList) (k : Nat) :
    (spelled w s).decode k =
      Phrase.decode k ⟨String.ofList w.spelling.toList, String.ofList s.toList⟩ := by
  have htext := toList_text_spelled w h
  have hproper := spelledLayout_proper w h
  have hidle : ¬ Idle (spelled w s).text.toList := by
    rw [htext]
    exact not_idle_of_proper hproper w.spelling_spec.2.2
  exact decode_of_layout hidle hproper htext.symm k

/-- Behind a keyword, the text means what the grammar says. -/
theorem decode_spelled_eq_some_iff (w : Keyword) {s : String} (h : Bare s.toList) (k : Nat)
    (st : Statement) : (spelled w s).decode k = .ok (some st) ↔ w.Takes s.toList st := by
  rw [decode_spelled w h, Phrase.decode_eq_some_iff]
  constructor
  · rintro ⟨w', hw', htakes⟩
    rwa [Keyword.eq_of_spelling hw' rfl] at htakes
  · exact fun htakes => ⟨w, rfl, htakes⟩

theorem decode_push_iff {s : String} (h : Bare s.toList) (k : Nat) (n : Int64) :
    (spelled .push s).decode k = .ok (some (.push (.integer n))) ↔
      Decimal.Numeral s.toList n.toInt := by
  rw [decode_spelled_eq_some_iff _ h, ← Literal.denotes_integer_iff]
  constructor
  · intro htakes
    cases htakes with
    | push hdenotes => exact hdenotes
  · exact fun hdenotes => .push hdenotes

theorem decode_goto_iff {s : String} (h : Bare s.toList) (k : Nat) (n : Int64) :
    (spelled .goto s).decode k = .ok (some (.goto (.line n))) ↔
      Decimal.Numeral s.toList n.toInt := by
  rw [decode_spelled_eq_some_iff _ h, ← Target.aims_line_iff]
  constructor
  · intro htakes
    cases htakes with
    | goto hne haims => exact haims
  · intro haims
    exact .goto ((Target.aims_line_iff _ n).mp haims).ne_nil haims

end Line

namespace Machine

/-- A machine in a line that pushes, or tries to: what it pushes, the line says. -/
theorem queue_step_push_iff {m : Machine} {s : String} (h : Bare s.toList)
    (hline : m.program.line? m.pc = some (Line.spelled .push s)) (v : Value) :
    m.step.1.queue.toList = m.queue.toList ++ [v] ↔
      (Line.spelled .push s).decode m.pc = .ok (some (.push v)) := by
  have hpc : m.pc < m.program.size := (Array.getElem?_eq_some_iff.mp hline).1
  have hstatement := Program.statementAt_eq m.program m.pc
  rw [hline] at hstatement
  cases hdecode : (Line.spelled .push s).decode m.pc with
  | error f =>
      have hstep := (Stepped.undecoded f hpc (hstatement.trans hdecode)).step_eq
      rw [hstep]
      simp [queue]
  | ok found =>
      cases found with
      | none =>
          rw [Line.decode_spelled _ h] at hdecode
          exact absurd hdecode (Phrase.decode_ne_none _ _ _)
      | some st =>
          have htakes := (Line.decode_spelled_eq_some_iff .push h m.pc st).mp hdecode
          cases htakes with
          | @push _ v' hdenotes =>
              have hstep := (Stepped.continued _ _ .next hpc (hstatement.trans hdecode) rfl
                (Or.inl rfl)).step_eq
              rw [hstep]
              simp [queue]

theorem queue_reply_iff {m : Machine} {prompt : String} (hphase : m.phase = .waiting prompt)
    (s : String) (v : Value) :
    (m.reply s).queue.toList = m.queue.toList ++ [v] ↔ Value.ofReply s = v := by
  rw [reply, hphase]
  simp [queue]

/-- **There is one notion of an integer's text.**

* A text is read as an integer exactly if it is one optional sign and one or more digits, with that
  integer as its value; such a text is read exactly if its value lies within 64 bits.
* The decimal text of an integer is read as that integer.
* A reply is an integer exactly if it is the text of one without the white space at its ends, and
  any other reply is kept as it is.  A value that is written and typed again is therefore the same
  value, unless it is a text that would be typed for an integer.
* For a text that is not empty and has no white space at its ends, `PUSH` pushes an integer exactly
  if a reply does, and exactly if `GOTO` aims at the line with that number. -/
theorem integers_are_read_alike :
    (∀ (s : String) (n : Int64),
      Decimal.int64? s.toList = some n ↔ Decimal.Numeral s.toList n.toInt) ∧
    (∀ (s : String) (k : Int), Decimal.Numeral s.toList k →
      ((∃ n, Decimal.int64? s.toList = some n) ↔ -2 ^ 63 ≤ k ∧ k ≤ 2 ^ 63 - 1)) ∧
    (∀ n : Int64, Decimal.int64? (Decimal.ofInt64 n).toList = some n) ∧
    (∀ (s : String) (n : Int64), Value.ofReply s = .integer n ↔ Value.IntegerReply s n) ∧
    (∀ s : String, (¬ ∃ n, Value.IntegerReply s n) → Value.ofReply s = .text s) ∧
    (∀ v : Value, Value.ofReply v.render = v ↔
      v.isInteger = true ∨ ∃ s, v = .text s ∧ ¬ ∃ n, Value.IntegerReply s n) ∧
    ∀ (s : String) (n : Int64), Bare s.toList →
      (∀ m : Machine, m.program.line? m.pc = some (Line.ofString ("PUSH " ++ s)) →
        (m.step.1.queue.toList = m.queue.toList ++ [.integer n] ↔
          Decimal.Numeral s.toList n.toInt)) ∧
      (∀ (m : Machine) (prompt : String), m.phase = .waiting prompt →
        ((m.reply s).queue.toList = m.queue.toList ++ [.integer n] ↔
          Decimal.Numeral s.toList n.toInt)) ∧
      ∀ k : Nat, (Line.ofString ("GOTO " ++ s)).decode k = .ok (some (.goto (.line n))) ↔
        Decimal.Numeral s.toList n.toInt := by
  refine ⟨fun s n => Decimal.int64?_eq_some_iff _ n, fun s k hk => hk.exists_int64?_iff,
    Decimal.int64?_ofInt64, Value.ofReply_eq_integer_iff, fun s => Value.ofReply_eq_text,
    Value.ofReply_render_iff, fun s n hbare => ⟨fun m hline => ?_, fun m prompt hphase => ?_,
      fun k => Line.decode_goto_iff hbare k n⟩⟩
  · exact (queue_step_push_iff hbare hline _).trans (Line.decode_push_iff hbare m.pc n)
  · rw [queue_reply_iff hphase, Value.ofReply_eq_integer_iff, Value.integerReply_of_bare hbare]

/-- A machine that is about to push a number, which is written with a sign and zeros. -/
def atPush : Machine :=
  ((fresh (.ticking 0)).load ["PUSH -007"]).1

/-- A machine that waits for a line. -/
def atRead : Machine :=
  (((fresh (.ticking 0)).load ["READ"]).1.execute 1).1

theorem integers_are_read_alike_zeros :
    Bare "-007".toList ∧
      atPush.step.1.queue.toList = [.integer (-7)] ∧
      (atRead.reply "-007").queue.toList = [.integer (-7)] ∧
      (Line.ofString "GOTO -007").decode 5 = .ok (some (.goto (.line (-7)))) ∧
      Value.ofReply " 9223372036854775808 " = .text " 9223372036854775808 " := by
  obtain ⟨hread, -, -, -, htext, -, hagree⟩ := integers_are_read_alike
  have hbare : Bare "-007".toList := ⟨⟨'-', rfl, by decide⟩, ⟨'7', rfl, by decide⟩⟩
  have hnumeral := (hread "-007" (-7)).mp (by decide)
  obtain ⟨hpush, hanswer, hgoto⟩ := hagree "-007" (-7) hbare
  refine ⟨hbare, (hpush atPush (by decide +kernel)).mpr hnumeral,
    (hanswer atRead "" (by decide +kernel)).mpr hnumeral, (hgoto 5).mpr hnumeral, htext _ ?_⟩
  rintro ⟨n, hn⟩
  have hwide : Decimal.int64? (trimWhiteSpace " 9223372036854775808 ".toList) = none := by decide
  rw [Value.integerReply_iff, hwide] at hn
  cases hn

end Machine
end Fifo
