import Fifo.Program
import Fifo.Proofs.Statement.Arguments
import Fifo.Proofs.Statement.Layout

/-!
# The grammar of lines

A line does nothing, or it is laid out in one way as a keyword and perhaps an argument, and these
two alone decide what it stands for.  The theorem `decode_follows_grammar` puts the pieces together:
the layout of a text, the words that are keywords, what each of them takes, and the fault of
everything else.  In particular the fault of reading a blank text is never raised.
-/

namespace Fifo

open Text

namespace Keyword

/-- The words that stand alone. -/
def actionWords : List String :=
  ["ADD", "ADDK", "SUB", "SUBK", "MUL", "MULK", "DIV", "DIVK", "MOD", "MODK", "EMPTY", "PEEK",
    "PEEKLN", "POP", "POPLN", "POPALL", "POPALLLN", "QDISPLAY", "POKE", "SORTUP", "SORTDOWN", "RET"]

/-- All words that open a statement. -/
def words : List String :=
  actionWords ++ ["GOTO", "IFEQ", "IFGT", "IFLT", "IFNQ", "PUSH", "PRINT", "READ"]

theorem ofString?_eq_some_iff (s : String) (w : Keyword) :
    ofString? s = some w ↔ w.spelling = s := by
  constructor
  · intro h
    have hfound := List.find?_some h
    simpa using hfound
  · rintro rfl
    exact ofString?_spelling w

theorem eq_of_spelling {v w : Keyword} {cs : List Char} (hv : v.spelling.toList = cs)
    (hw : w.spelling.toList = cs) : v = w := by
  have hsame : v.spelling = w.spelling := String.toList_injective (hv.trans hw.symm)
  have hread := ofString?_spelling v
  rw [hsame, ofString?_spelling] at hread
  exact (Option.some.inj hread).symm

/-- Keywords are words: they are written without blanks, and no bar begins them. -/
theorem spelling_spec (w : Keyword) :
    w.spelling.toList ≠ [] ∧ (∀ c ∈ w.spelling.toList, isBlank c = false) ∧
      w.spelling.toList.head? ≠ some Line.bar := by
  have hall : ∀ v ∈ all, v.spelling.toList ≠ [] ∧
      v.spelling.toList.all (!isBlank ·) = true ∧
      v.spelling.toList.head? ≠ some Line.bar := by decide
  obtain ⟨hne, hword, hbar⟩ := hall w (mem_all w)
  rw [List.all_eq_true] at hword
  exact ⟨hne, fun c hc => by simpa using hword c hc, hbar⟩

theorem exists_spelling_iff (s : String) : (∃ w : Keyword, w.spelling = s) ↔ s ∈ words := by
  constructor
  · rintro ⟨w, rfl⟩
    have hall : ∀ v ∈ all, v.spelling ∈ words := by decide
    exact hall w (mem_all w)
  · intro hs
    have hall : ∀ s ∈ words, ∃ v ∈ all, v.spelling = s := by decide
    obtain ⟨w, -, hw⟩ := hall s hs
    exact ⟨w, hw⟩

theorem exists_act_spelling_iff (s : String) :
    (∃ a : Action, (act a).spelling = s) ↔ s ∈ actionWords := by
  constructor
  · rintro ⟨a, rfl⟩
    have hall : ∀ v ∈ all, v.argument = .none → v.spelling ∈ actionWords := by decide
    exact hall (act a) (mem_all _) rfl
  · intro hs
    have hall : ∀ s ∈ actionWords, ∃ v ∈ all, v.spelling = s ∧ v.argument = .none := by decide
    obtain ⟨w, -, hw, hnone⟩ := hall s hs
    cases w with
    | act a => exact ⟨a, hw⟩
    | goto => cases hnone
    | branch r => cases hnone
    | push => cases hnone
    | print => cases hnone
    | read => cases hnone

end Keyword

namespace Phrase

/-- What a phrase stands for in a given line. -/
def decode (number : Nat) (p : Phrase) : Decoded :=
  match p.statement with
  | .ok s => .ok (some s)
  | .error f => .error (f.inLine number)

/-- The fault of a keyword and an argument that are no statement: the word is no keyword, or it
refuses the argument. -/
inductive Refused (keyword argument : List Char) : Fault → Prop
  | unknown (hword : ∀ w : Keyword, w.spelling.toList ≠ keyword) :
      Refused keyword argument (.because .unknownInstruction (String.ofList keyword))
  | argument (w : Keyword) {f : Fault} (hword : w.spelling.toList = keyword)
      (hrefuses : w.Refuses argument f) : Refused keyword argument f

/-- A phrase is the statement that its first word makes with the rest, or it is refused. -/
theorem decode_spec (keyword argument : List Char) (number : Nat) :
    (∃ (w : Keyword) (st : Statement), w.spelling.toList = keyword ∧ w.Takes argument st ∧
      decode number ⟨String.ofList keyword, String.ofList argument⟩ = .ok (some st)) ∨
    ∃ f, Refused keyword argument f ∧
      decode number ⟨String.ofList keyword, String.ofList argument⟩ = .error (f.inLine number) := by
  unfold decode statement
  cases hfound : Keyword.ofString? (String.ofList keyword) with
  | none =>
      refine Or.inr ⟨_, .unknown ?_, rfl⟩
      intro w hw
      rw [← hw, String.ofList_toList, Keyword.ofString?_spelling] at hfound
      cases hfound
  | some w =>
      have hw : w.spelling.toList = keyword := by
        rw [(Keyword.ofString?_eq_some_iff _ w).mp hfound, String.toList_ofList]
      rcases w.statement_spec (String.ofList argument) with ⟨st, hread, htakes⟩ |
        ⟨f, hread, hrefuses⟩
      · rw [String.toList_ofList] at htakes
        exact Or.inl ⟨w, st, hw, htakes, by simp only [hread]⟩
      · rw [String.toList_ofList] at hrefuses
        exact Or.inr ⟨f, .argument w hw hrefuses, by simp only [hread]⟩

theorem Refused.unique {keyword argument : List Char} {f f' : Fault}
    (h : Refused keyword argument f) (h' : Refused keyword argument f') : f = f' := by
  cases h with
  | unknown hword => cases h' with
    | unknown hword' => rfl
    | argument w hw hrefuses => exact absurd hw (hword w)
  | argument w hw hrefuses => cases h' with
    | unknown hword' => exact absurd hw (hword' w)
    | argument w' hw' hrefuses' =>
        obtain rfl := Keyword.eq_of_spelling hw' hw
        exact hrefuses.unique hrefuses'

theorem Refused.not_takes {keyword argument : List Char} {f : Fault} {w : Keyword} {st : Statement}
    (h : Refused keyword argument f) (hw : w.spelling.toList = keyword) :
    ¬ w.Takes argument st := by
  intro htakes
  cases h with
  | unknown hword => exact hword w hw
  | argument w' hw' hrefuses =>
      obtain rfl := Keyword.eq_of_spelling hw' hw
      exact htakes.not_refuses hrefuses

theorem Refused.unplaced {keyword argument : List Char} {f : Fault}
    (h : Refused keyword argument f) :
    f.line = none ∧ f.column = none ∧
      f.kind ∈ [.unknownInstruction, .invalidPush, .invalidPrint, .invalidRead] := by
  cases h with
  | unknown hword => exact ⟨rfl, rfl, by simp [Fault.because]⟩
  | argument w hw hrefuses =>
      cases hrefuses <;> exact ⟨rfl, rfl, by simp [Fault.because, Fault.of]⟩

/-- A phrase is a statement exactly if its first word is a keyword that takes the rest. -/
theorem decode_eq_some_iff (keyword argument : List Char) (number : Nat) (st : Statement) :
    decode number ⟨String.ofList keyword, String.ofList argument⟩ = .ok (some st) ↔
      ∃ w : Keyword, w.spelling.toList = keyword ∧ w.Takes argument st := by
  rcases decode_spec keyword argument number with ⟨w, st', hw, htakes, hread⟩ |
    ⟨f, hrefused, hread⟩
  · rw [hread, Except.ok.injEq, Option.some.injEq]
    constructor
    · rintro rfl
      exact ⟨w, hw, htakes⟩
    · rintro ⟨w', hw', htakes'⟩
      obtain rfl := Keyword.eq_of_spelling hw' hw
      exact htakes.unique htakes'
  · rw [hread]
    constructor
    · intro h
      cases h
    · rintro ⟨w, hw, htakes⟩
      exact absurd htakes (hrefused.not_takes hw)

/-- Any other phrase is refused, with a fault in the line that it stands in. -/
theorem decode_eq_error_iff (keyword argument : List Char) (number : Nat) (f : Fault) :
    decode number ⟨String.ofList keyword, String.ofList argument⟩ = .error f ↔
      ∃ g, Refused keyword argument g ∧ f = g.inLine number := by
  rcases decode_spec keyword argument number with ⟨w, st, hw, htakes, hread⟩ |
    ⟨f', hrefused, hread⟩
  · rw [hread]
    constructor
    · intro h
      cases h
    · rintro ⟨g, hrefused, -⟩
      exact absurd htakes (hrefused.not_takes hw)
  · rw [hread, Except.error.injEq]
    constructor
    · rintro rfl
      exact ⟨f', hrefused, rfl⟩
    · rintro ⟨g, hrefused', rfl⟩
      rw [hrefused.unique hrefused']

theorem decode_ne_none (keyword argument : List Char) (number : Nat) :
    decode number ⟨String.ofList keyword, String.ofList argument⟩ ≠ .ok none := by
  rcases decode_spec keyword argument number with ⟨w, st, -, -, hread⟩ | ⟨f, -, hread⟩
  · rw [hread]
    simp
  · rw [hread]
    simp

end Phrase

namespace Line

/-- A text that does nothing: blanks only, or a bar with nothing but blanks before it. -/
def Idle (cs : List Char) : Prop :=
  AllBlank cs ∨ ∃ before rest, AllBlank before ∧ cs = before ++ bar :: rest

theorem idle_iff_head? (cs : List Char) :
    Idle cs ↔ AllBlank cs ∨ (cs.dropWhile Text.isBlank).head? = some bar := by
  refine or_congr Iff.rfl ⟨?_, ?_⟩
  · rintro ⟨before, rest, hbefore, rfl⟩
    have hbar : ∀ c, (bar :: rest).head? = some c → Text.isBlank c = false := by
      intro c hc
      cases hc
      decide
    rw [(span_append hbefore hbar).2]
    rfl
  · intro h
    obtain ⟨rest, hrest⟩ := List.head?_eq_some_iff.mp h
    refine ⟨cs.takeWhile Text.isBlank, rest, fun c hc => List.mem_takeWhile_imp hc, ?_⟩
    rw [← hrest, List.takeWhile_append_dropWhile]

theorem isSkipped_iff (l : Line) : l.isSkipped = true ↔ Idle l.text.toList := by
  rw [idle_iff_head?]
  simp [isSkipped, isBlank, isLabel, AllBlank]

theorem not_idle_of_proper {layout : Layout} (h : layout.Proper)
    (hbar : layout.keyword.head? ≠ some bar) : ¬ Idle layout.text := by
  obtain ⟨c, hc, hblank⟩ := h.solid_keyword.head
  have hhead : (layout.text.dropWhile Text.isBlank).head? = some c := by
    rw [h.dropWhile_text, List.head?_append, hc]
    rfl
  rw [idle_iff_head?, not_or, hhead, ← hc]
  -- A text of blanks only would have nothing left to begin with.
  refine ⟨fun hall => ?_, hbar⟩
  rw [List.dropWhile_eq_nil_iff.mpr hall] at hhead
  cases hhead

/-- A line that does something stands for its keyword and its argument, and for nothing else. -/
theorem decode_of_layout {l : Line} {layout : Layout} (hidle : ¬ Idle l.text.toList)
    (hproper : layout.Proper) (htext : layout.text = l.text.toList) (number : Nat) :
    l.decode number =
      Phrase.decode number ⟨String.ofList layout.keyword, String.ofList layout.argument⟩ := by
  have hskipped : ¬ l.isSkipped = true := fun h => hidle ((isSkipped_iff l).mp h)
  have hphrase := hproper.ofString?_text
  rw [htext, String.ofList_toList] at hphrase
  rw [decode, if_neg hskipped, hphrase]
  rfl

theorem not_allBlank_of_not_idle {cs : List Char} (h : ¬ Idle cs) : ¬ AllBlank cs :=
  fun hall => h (Or.inl hall)

theorem decode_eq_none_iff (l : Line) (number : Nat) :
    l.decode number = .ok none ↔ Idle l.text.toList := by
  constructor
  · intro h
    by_contra hidle
    have hdecode := decode_of_layout hidle
      (Layout.proper_ofText (not_allBlank_of_not_idle hidle)) (Layout.text_ofText _) number
    rw [h] at hdecode
    exact Phrase.decode_ne_none _ _ number hdecode.symm
  · intro h
    rw [decode, if_pos ((isSkipped_iff l).mpr h)]

theorem exists_layout_of_ne_none {l : Line} {number : Nat} (h : l.decode number ≠ .ok none) :
    ∃ layout : Layout, layout.Proper ∧ layout.text = l.text.toList ∧ l.decode number =
      Phrase.decode number ⟨String.ofList layout.keyword, String.ofList layout.argument⟩ := by
  have hidle : ¬ Idle l.text.toList := fun hidle => h ((decode_eq_none_iff l number).mpr hidle)
  have hproper := Layout.proper_ofText (not_allBlank_of_not_idle hidle)
  exact ⟨_, hproper, Layout.text_ofText _,
    decode_of_layout hidle hproper (Layout.text_ofText _) number⟩

theorem toList_text_ofString (t : String) :
    (ofString t).text.toList = dropEndWhile isLineEnd t.toList := by
  simp [ofString]

/-- **Lines follow the grammar.**  Thirty words are keywords, and twenty-two of them stand alone.
For every text `t`, without the line ends at its end, and every line number `k`:

* the line stands for nothing exactly if it has only blanks, or only blanks before a bar;
* otherwise the text is laid out in exactly one way, and what it stands for, as line `k`, depends on
  its keyword and its argument alone;
* these are a statement exactly if the keyword is one of the thirty, letter for letter, and takes
  the argument, and which statement that is, `Keyword.Takes` says;
* everything else is a fault in line `k`, which `Phrase.Refused` names.  It is never the fault of a
  blank text. -/
theorem decode_follows_grammar :
    (∀ s : String, (∃ w : Keyword, w.spelling = s) ↔ s ∈ Keyword.words) ∧
    (∀ s : String, (∃ a : Action, (Keyword.act a).spelling = s) ↔ s ∈ Keyword.actionWords) ∧
    (Keyword.words.Nodup ∧ Keyword.words.length = 30 ∧ Keyword.actionWords.length = 22) ∧
    ∃ meaning : List Char → List Char → Nat → Decoded,
      (∀ (t : String) (k : Nat),
        let text := dropEndWhile isLineEnd t.toList
        ((ofString t).decode k = .ok none ↔ Idle text) ∧
        (¬ Idle text →
          (∃! l : Layout, l.Proper ∧ l.text = text) ∧
          ∀ l : Layout, l.Proper → l.text = text →
            (ofString t).decode k = meaning l.keyword l.argument k)) ∧
      (∀ (keyword argument : List Char) (k : Nat) (st : Statement),
        meaning keyword argument k = .ok (some st) ↔
          ∃ w : Keyword, w.spelling.toList = keyword ∧ w.Takes argument st) ∧
      (∀ (keyword argument : List Char) (k : Nat) (f : Fault),
        meaning keyword argument k = .error f ↔
          ∃ g, Phrase.Refused keyword argument g ∧ f = g.inLine k) ∧
      ∀ (t : String) (k : Nat) (f : Fault), (ofString t).decode k = .error f →
        f.line = some k ∧ f.column = none ∧
          f.kind ∈ [.unknownInstruction, .invalidPush, .invalidPrint, .invalidRead] := by
  refine ⟨Keyword.exists_spelling_iff, Keyword.exists_act_spelling_iff,
    ⟨by decide, by decide, by decide⟩,
    fun keyword argument k => Phrase.decode k ⟨String.ofList keyword, String.ofList argument⟩,
    ?_, Phrase.decode_eq_some_iff, Phrase.decode_eq_error_iff, ?_⟩
  · intro t k
    rw [← toList_text_ofString]
    refine ⟨decode_eq_none_iff _ k, fun hidle => ⟨?_, ?_⟩⟩
    · exact Layout.existsUnique_proper (not_allBlank_of_not_idle hidle)
    · intro l hproper htext
      exact decode_of_layout hidle hproper htext k
  · -- A fault comes from a layout, so it is one of those that the grammar names.
    intro t k f h
    obtain ⟨layout, -, -, hdecode⟩ := exists_layout_of_ne_none (by rw [h]; simp)
    rw [hdecode, Phrase.decode_eq_error_iff] at h
    obtain ⟨g, hrefused, rfl⟩ := h
    obtain ⟨hline, hcolumn, hkind⟩ := hrefused.unplaced
    refine ⟨?_, hcolumn, hkind⟩
    simp [Fault.inLine, hline]

/-- The layout of a line that pushes a text with a line feed in it. -/
def pushLayout : Layout where
  before := [' ', ' ']
  keyword := "PUSH".toList
  gap := ['\t']
  argument := "\"a\\n b\"".toList
  after := [' ']

theorem decode_follows_grammar_push :
    (ofString "  PUSH\t\"a\\n b\" \r\n").decode 4 = .ok (some (.push (.text "a\n b"))) := by
  obtain ⟨-, -, -, meaning, hlines, hstatements, -, -⟩ := decode_follows_grammar
  have htext : pushLayout.text =
      dropEndWhile isLineEnd "  PUSH\t\"a\\n b\" \r\n".toList := by decide
  have hproper : pushLayout.Proper :=
    ⟨by decide, by decide, by decide, by decide, Keyword.push.spelling_spec.2.1,
      Or.inr ⟨by decide, ⟨'"', rfl, rfl⟩, ⟨'"', rfl, rfl⟩⟩⟩
  have hidle : ¬ Idle (dropEndWhile isLineEnd "  PUSH\t\"a\\n b\" \r\n".toList) := by
    rw [← toList_text_ofString, ← isSkipped_iff]
    decide
  rw [((hlines _ 4).2 hidle).2 pushLayout hproper htext, hstatements]
  exact ⟨.push, rfl, .push (.text ((Literal.unescapes_iff "a\\n b".toList _).mpr rfl))⟩

end Line
end Fifo
