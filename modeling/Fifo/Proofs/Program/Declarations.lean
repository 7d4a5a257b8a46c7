import Fifo.Program
import Mathlib.Data.List.Induction
import Mathlib.Data.Set.Card
import Mathlib.Order.Bounds.Basic

/-!
# What the label pass finds

A line with exactly two bars declares the text between them.  The pass over the labels of a program
finds exactly the declarations: a name stands for the last line that declares it.  The pass stops at
the first line with a single bar, and only there.

The pass is followed from its end: `scan_concat` says what one more line adds, and each fact about
the whole pass is an induction over it, `Describes.concat` for the table and `scan_fault_spec` for
the fault.
-/

namespace Fifo
namespace Line

/-- The number of bars in a line. -/
def bars (l : Line) : Nat :=
  l.text.toList.count bar

/-- The line has two bars, and the name stands between them. -/
def Declares (l : Line) (name : String) : Prop :=
  l.bars = 2 ∧ ∃ before after : List Char,
    l.text.toList = before ++ bar :: (name.toList ++ bar :: after)

/-- The line has one bar, with the given characters before it. -/
def Breaks (l : Line) (before : List Char) : Prop :=
  l.bars = 1 ∧ ∃ after : List Char, l.text.toList = before ++ bar :: after

theorem ne_bar_of_not_mem {before : List Char} (h : bar ∉ before) :
    ∀ c ∈ before, (c != bar) = true := by
  intro c hc
  simpa using fun heq : c = bar => h (heq ▸ hc)

theorem beforeBar_append {before : List Char} (hbefore : bar ∉ before) (after : List Char) :
    beforeBar (before ++ bar :: after) = before := by
  rw [beforeBar, List.takeWhile_append_of_pos (ne_bar_of_not_mem hbefore)]
  simp

theorem afterBar_append {before : List Char} (hbefore : bar ∉ before) (after : List Char) :
    afterBar (before ++ bar :: after) = after := by
  rw [afterBar, List.dropWhile_append_of_pos (ne_bar_of_not_mem hbefore)]
  simp

/-- Characters with a bar among them are cut at the first one. -/
theorem exists_cut_of_count {cs : List Char} {n : Nat} (h : cs.count bar = n + 1) :
    ∃ before after, cs = before ++ bar :: after ∧ bar ∉ before ∧ after.count bar = n := by
  have hmem : bar ∈ cs := List.count_pos_iff.mp (by omega)
  obtain ⟨before, after, rfl, hbefore⟩ := List.eq_append_cons_of_mem hmem
  refine ⟨before, after, rfl, hbefore, ?_⟩
  rw [List.count_append, List.count_cons_self, List.count_eq_zero.mpr hbefore] at h
  omega

/-- A line breaks off the pass, declares a name, or does neither. -/
theorem label_spec (l : Line) (number : Nat) :
    (∃ before, l.Breaks before ∧ l.label number =
      .error ⟨.singleDelimiter, some number, some (Text.bytes (String.ofList before)).length, ""⟩) ∨
    (∃ name, l.Declares name ∧ l.label number = .ok (some name)) ∨
    (l.bars ≠ 1 ∧ l.bars ≠ 2 ∧ l.label number = .ok none) := by
  unfold label
  by_cases hone : l.bars = 1
  · obtain ⟨before, after, htext, hbefore, -⟩ := exists_cut_of_count hone
    refine Or.inl ⟨before, ⟨hone, after, htext⟩, ?_⟩
    have hcount : l.text.toList.count bar = 1 := hone
    simp only [hcount]
    rw [htext, beforeBar_append hbefore, Text.length_bytes, String.toList_ofList]
    rfl
  · by_cases htwo : l.bars = 2
    · obtain ⟨before, rest, htext, hbefore, hrest⟩ := exists_cut_of_count htwo
      obtain ⟨name, after, rfl, hname, -⟩ := exists_cut_of_count hrest
      refine Or.inr (Or.inl ⟨String.ofList name, ⟨htwo, before, after, ?_⟩, ?_⟩)
      · rw [htext, String.toList_ofList]
      · have hcount : l.text.toList.count bar = 2 := htwo
        simp only [hcount]
        rw [htext, afterBar_append hbefore, beforeBar_append hname]
    · refine Or.inr (Or.inr ⟨hone, htwo, ?_⟩)
      simp only
      split
      · next hcount => exact absurd hcount hone
      · next hcount => exact absurd hcount htwo
      · rfl

theorem Declares.unique {l : Line} {name name' : String} (h : l.Declares name)
    (h' : l.Declares name') : name = name' := by
  obtain ⟨hbars, before, after, htext⟩ := h
  obtain ⟨-, before', after', htext'⟩ := h'
  have hfree : ∀ {b n a : List Char}, l.text.toList = b ++ bar :: (n ++ bar :: a) →
      bar ∉ b ∧ bar ∉ n := by
    intro b n a ht
    have hcount : l.text.toList.count bar = 2 := hbars
    rw [ht, List.count_append, List.count_cons_self, List.count_append, List.count_cons_self]
      at hcount
    exact ⟨List.count_eq_zero.mp (by omega), List.count_eq_zero.mp (by omega)⟩
  -- Both names are what stands behind the first bar and before the second.
  have hread : ∀ {b n a : List Char}, l.text.toList = b ++ bar :: (n ++ bar :: a) →
      beforeBar (afterBar l.text.toList) = n := by
    intro b n a ht
    obtain ⟨hb, hn⟩ := hfree ht
    rw [ht, afterBar_append hb, beforeBar_append hn]
  exact String.toList_injective ((hread htext).symm.trans (hread htext'))

end Line

namespace Labels

/-- The line with a given index declares the name. -/
def DeclaredAt (lines : List Line) (name : String) (i : Nat) : Prop :=
  ∃ l, lines[i]? = some l ∧ l.Declares name

/-- The line with a given index has a single bar. -/
def BrokenAt (lines : List Line) (i : Nat) : Prop :=
  ∃ l, lines[i]? = some l ∧ l.bars = 1

theorem getElem?_concat_eq_some_iff {lines : List Line} {l found : Line} {i : Nat} :
    (lines ++ [l])[i]? = some found ↔ lines[i]? = some found ∨ (i = lines.length ∧ found = l) := by
  rcases Nat.lt_trichotomy i lines.length with hlt | heq | hgt
  · rw [List.getElem?_append_left hlt]
    constructor
    · exact Or.inl
    · rintro (h | ⟨hi, -⟩)
      · exact h
      · omega
  · subst heq
    simp [eq_comm]
  · have hnone : (lines ++ [l])[i]? = none := List.getElem?_eq_none (by simp; omega)
    have hnone' : lines[i]? = none := List.getElem?_eq_none (by omega)
    rw [hnone, hnone']
    constructor
    · intro h
      cases h
    · rintro (h | ⟨hi, -⟩)
      · cases h
      · omega

/-- A line with a property is among the old ones, or it is the new one. -/
theorem exists_concat_iff {lines : List Line} {l : Line} {i : Nat} (P : Line → Prop) :
    (∃ found, (lines ++ [l])[i]? = some found ∧ P found) ↔
      (∃ found, lines[i]? = some found ∧ P found) ∨ (i = lines.length ∧ P l) := by
  simp only [getElem?_concat_eq_some_iff]
  constructor
  · rintro ⟨found, h | ⟨hi, rfl⟩, hfound⟩
    · exact Or.inl ⟨found, h, hfound⟩
    · exact Or.inr ⟨hi, hfound⟩
  · rintro (⟨found, h, hfound⟩ | ⟨hi, hl⟩)
    · exact ⟨found, Or.inl h, hfound⟩
    · exact ⟨l, Or.inr ⟨hi, rfl⟩, hl⟩

theorem declaredAt_concat {lines : List Line} {l : Line} {name : String} {i : Nat} :
    DeclaredAt (lines ++ [l]) name i ↔
      DeclaredAt lines name i ∨ (i = lines.length ∧ l.Declares name) :=
  exists_concat_iff fun found => found.Declares name

theorem brokenAt_concat {lines : List Line} {l : Line} {i : Nat} :
    BrokenAt (lines ++ [l]) i ↔ BrokenAt lines i ∨ (i = lines.length ∧ l.bars = 1) :=
  exists_concat_iff fun found => found.bars = 1

theorem lt_length_of_declaredAt {lines : List Line} {name : String} {i : Nat}
    (h : DeclaredAt lines name i) : i < lines.length := by
  obtain ⟨l, hl, -⟩ := h
  exact (List.getElem?_eq_some_iff.mp hl).1

theorem lt_length_of_brokenAt {lines : List Line} {i : Nat} (h : BrokenAt lines i) :
    i < lines.length := by
  obtain ⟨l, hl, -⟩ := h
  exact (List.getElem?_eq_some_iff.mp hl).1

theorem scanFrom_append (address : Nat) (t : Labels) (lines more : List Line) :
    scanFrom address t (lines ++ more) = match scanFrom address t lines with
      | .error f => .error f
      | .ok t' => scanFrom (address + lines.length) t' more := by
  induction lines generalizing address t with
  | nil => rfl
  | cons l lines ih =>
      have hlength : address + (l :: lines).length = address + 1 + lines.length := by
        rw [List.length_cons]
        omega
      rw [hlength, List.cons_append, scanFrom, scanFrom]
      cases l.label address with
      | error f => rfl
      | ok found =>
          cases found with
          | none => exact ih (address + 1) t
          | some name => exact ih (address + 1) (t.insert name address)

/-- What one more line adds to a pass. -/
theorem scan_concat (lines : List Line) (l : Line) :
    scan (lines ++ [l]) = match scan lines with
      | .error f => .error f
      | .ok t => match l.label lines.length with
        | .error f => .error f
        | .ok none => .ok t
        | .ok (some name) => .ok (t.insert name lines.length) := by
  rw [scan, scanFrom_append, Nat.zero_add]
  rfl

/-- A table describes lines if each name stands for the last line that declares it, and is entered
once. -/
structure Describes (t : Labels) (lines : List Line) : Prop where
  get?_iff : ∀ name a, t.get? name = some a ↔ IsGreatest {i | DeclaredAt lines name i} a
  nodup : (t.entries.map Prod.fst).Nodup

theorem describes_empty : empty.Describes [] where
  get?_iff := by
    intro name a
    constructor
    · intro h
      cases h
    · rintro ⟨⟨l, hl, -⟩, -⟩
      cases hl
  nodup := List.nodup_nil

/-- A line that declares nothing leaves the table right. -/
theorem Describes.concat_other {t : Labels} {lines : List Line} {l : Line} (h : t.Describes lines)
    (hl : ∀ name, ¬ l.Declares name) : t.Describes (lines ++ [l]) where
  get?_iff := by
    intro name a
    have hsame : {i | DeclaredAt (lines ++ [l]) name i} = {i | DeclaredAt lines name i} := by
      ext i
      simp [declaredAt_concat, hl name]
    rw [hsame]
    exact h.get?_iff name a
  nodup := h.nodup

/-- A line that declares a name is the last one to do so. -/
theorem Describes.concat {t : Labels} {lines : List Line} {l : Line} {name : String}
    (h : t.Describes lines) (hl : l.Declares name) :
    (t.insert name lines.length).Describes (lines ++ [l]) where
  get?_iff := by
    intro other a
    rw [get?_insert]
    by_cases heq : other = name
    · subst heq
      have hlast : IsGreatest {i | DeclaredAt (lines ++ [l]) other i} lines.length := by
        refine ⟨declaredAt_concat.mpr (Or.inr ⟨rfl, hl⟩), ?_⟩
        intro i hi
        have hlt := lt_length_of_declaredAt hi
        rw [List.length_append, List.length_singleton] at hlt
        omega
      rw [if_pos rfl, Option.some.injEq]
      constructor
      · rintro rfl
        exact hlast
      · exact fun ha => hlast.unique ha
    · have hother : ¬ l.Declares other := fun hother => heq (hother.unique hl)
      have hsame : {i | DeclaredAt (lines ++ [l]) other i} = {i | DeclaredAt lines other i} := by
        ext i
        simp [declaredAt_concat, hother]
      rw [if_neg heq, hsame]
      exact h.get?_iff other a
  nodup := by
    have hkept : ((t.entries.filter (·.1 != name)).map Prod.fst).Nodup :=
      h.nodup.sublist (List.filter_sublist.map Prod.fst)
    refine List.nodup_cons.mpr ⟨?_, hkept⟩
    intro hmem
    obtain ⟨e, he, hname⟩ := List.mem_map.mp hmem
    have hne := (List.mem_filter.mp he).2
    simp [hname] at hne

/-- A pass that comes to its end finds the declarations, and met no single bar. -/
theorem scan_spec {lines : List Line} {t : Labels} (h : scan lines = .ok t) :
    t.Describes lines ∧ ∀ i, ¬ BrokenAt lines i := by
  induction lines using List.reverseRecOn generalizing t with
  | nil =>
      obtain rfl := Except.ok.inj h
      refine ⟨describes_empty, ?_⟩
      rintro i ⟨l, hl, -⟩
      cases hl
  | append_singleton lines l ih =>
      rw [scan_concat] at h
      cases hscan : scan lines with
      | error f => simp [hscan] at h
      | ok t' =>
          obtain ⟨hdescribes, hbroken⟩ := ih hscan
          have hnone : l.bars ≠ 1 → ∀ i, ¬ BrokenAt (lines ++ [l]) i := by
            intro hbars i hi
            rcases brokenAt_concat.mp hi with hold | ⟨-, hnew⟩
            · exact hbroken i hold
            · exact hbars hnew
          rw [hscan] at h
          rcases l.label_spec lines.length with ⟨before, -, hlabel⟩ | ⟨name, hname, hlabel⟩ |
            ⟨hone, htwo, hlabel⟩
          · simp [hlabel] at h
          · simp only [hlabel, Except.ok.injEq] at h
            subst h
            refine ⟨hdescribes.concat hname, hnone ?_⟩
            rw [hname.1]
            decide
          · simp only [hlabel, Except.ok.injEq] at h
            subst h
            exact ⟨hdescribes.concat_other fun name hname => htwo hname.1, hnone hone⟩

/-- A pass that fails does so at the first line with a single bar, and names it and the bytes before
the bar. -/
theorem scan_fault_spec {lines : List Line} {f : Fault} (h : scan lines = .error f) :
    ∃ i l before, IsLeast {i | BrokenAt lines i} i ∧ lines[i]? = some l ∧ l.Breaks before ∧
      f = ⟨.singleDelimiter, some i, some (Text.bytes (String.ofList before)).length, ""⟩ := by
  induction lines using List.reverseRecOn generalizing f with
  | nil => cases h
  | append_singleton lines l ih =>
      rw [scan_concat] at h
      cases hscan : scan lines with
      | error g =>
          simp only [hscan, Except.error.injEq] at h
          subst h
          obtain ⟨i, found, before, ⟨hi, hleast⟩, hfound, hbreaks, hf⟩ := ih hscan
          refine ⟨i, found, before, ⟨brokenAt_concat.mpr (Or.inl hi), ?_⟩,
            getElem?_concat_eq_some_iff.mpr (Or.inl hfound), hbreaks, hf⟩
          -- A new line cannot come before one that was there.
          intro j hj
          rcases brokenAt_concat.mp hj with hold | ⟨rfl, -⟩
          · exact hleast hold
          · exact Nat.le_of_lt (lt_length_of_brokenAt hi)
      | ok t =>
          rw [hscan] at h
          rcases l.label_spec lines.length with ⟨before, hbreaks, hlabel⟩ | ⟨name, -, hlabel⟩ |
            ⟨-, -, hlabel⟩
          · simp only [hlabel, Except.error.injEq] at h
            refine ⟨lines.length, l, before, ⟨brokenAt_concat.mpr (Or.inr ⟨rfl, hbreaks.1⟩), ?_⟩,
              getElem?_concat_eq_some_iff.mpr (Or.inr ⟨rfl, rfl⟩), hbreaks, h.symm⟩
            intro j hj
            rcases brokenAt_concat.mp hj with hold | ⟨rfl, -⟩
            · exact absurd hold ((scan_spec hscan).2 j)
            · exact Nat.le_refl _
          · simp [hlabel] at h
          · simp [hlabel] at h

/-- The pass comes to its end exactly if no line has a single bar. -/
theorem scan_ok_iff (lines : List Line) :
    (∃ t, scan lines = .ok t) ↔ ∀ l ∈ lines, l.bars ≠ 1 := by
  constructor
  · rintro ⟨t, ht⟩ l hl hbars
    obtain ⟨i, hi⟩ := List.mem_iff_getElem?.mp hl
    exact (scan_spec ht).2 i ⟨l, hi, hbars⟩
  · intro hlines
    cases hscan : scan lines with
    | ok t => exact ⟨t, rfl⟩
    | error f =>
        obtain ⟨i, l, before, -, hl, hbreaks, -⟩ := scan_fault_spec hscan
        exact absurd hbreaks.1 (hlines l (List.mem_of_getElem? hl))

theorem Describes.get?_eq_none_iff {t : Labels} {lines : List Line} (h : t.Describes lines)
    (name : String) : t.get? name = none ↔ ∀ i, ¬ DeclaredAt lines name i := by
  constructor
  · intro hnone i hi
    -- There are finitely many lines, so a name that is declared is declared last somewhere.
    have hfinite : {i | DeclaredAt lines name i}.Finite :=
      (Set.finite_lt_nat lines.length).subset fun j hj => lt_length_of_declaredAt hj
    obtain ⟨a, ha⟩ := hfinite.exists_maximal ⟨i, hi⟩
    have hgreatest : IsGreatest {i | DeclaredAt lines name i} a := by
      refine ⟨ha.1, fun j hj => ?_⟩
      rcases Nat.le_total j a with hle | hle
      · exact hle
      · exact ha.2 hj hle
    rw [(h.get?_iff name a).mpr hgreatest] at hnone
    cases hnone
  · intro hall
    cases hget : t.get? name with
    | none => rfl
    | some a => exact absurd ((h.get?_iff name a).mp hget).1 (hall a)

theorem get?_ne_none_iff (t : Labels) (name : String) :
    t.get? name ≠ none ↔ name ∈ t.entries.map Prod.fst := by
  rw [get?, Ne, List.lookup_eq_none_iff]
  simp

/-- The size of a table is the number of names that are declared. -/
theorem Describes.encard_declared {t : Labels} {lines : List Line} (h : t.Describes lines) :
    {name | ∃ i, DeclaredAt lines name i}.encard = t.size := by
  have hnames : {name | ∃ i, DeclaredAt lines name i} =
      ((t.entries.map Prod.fst).toFinset : Set String) := by
    ext name
    have hmem := t.get?_ne_none_iff name
    rw [Ne, h.get?_eq_none_iff name] at hmem
    simp only [not_forall, not_not] at hmem
    rw [List.coe_toFinset]
    exact hmem
  rw [hnames, Set.encard_coe_eq_coe_finsetCard, List.toFinset_card_of_nodup h.nodup,
    List.length_map, size]

end Labels

theorem Decimal.ofInt64_eq_toString (n : Int64) : ofInt64 n = toString n.toInt := by
  unfold ofInt64 numeral
  cases n.toInt with
  | ofNat k => rfl
  | negSucc k =>
      change String.ofList ('-' :: digits (k + 1)) = "-" ++ String.ofList (Nat.toDigits 10 (k + 1))
      apply String.toList_injective
      simp [digits]

namespace Program

/-- A target by number is a line exactly if there is a line with this number. -/
theorem resolve_line (p : Program) (n : Int64) :
    p.resolve (.line n) = if 0 ≤ n.toInt ∧ n.toInt < p.size then .ok n.toInt.toNat
      else .error (.because .invalidJumpTarget (toString n.toInt)) := by
  rw [resolve, Labels.resolve, Decimal.ofInt64_eq_toString]

theorem labels_of_ofLines {lines : List Line} {p : Program} (h : ofLines lines = .ok p) :
    Labels.scan lines = .ok p.labels ∧ p.size = lines.length := by
  have hlines := lines_of_ofLines h
  refine ⟨?_, ?_⟩
  · have hscan := p.labels_eq
    rw [hlines] at hscan
    exact hscan
  · rw [size, hlines, List.size_toArray]

/-- Lines make a program exactly if none of them has a single bar. -/
theorem ofLines_ok_iff (lines : List Line) :
    (∃ p, ofLines lines = .ok p) ↔ ∀ l ∈ lines, l.bars ≠ 1 := by
  rw [← Labels.scan_ok_iff]
  constructor
  · rintro ⟨p, hp⟩
    exact ⟨p.labels, (labels_of_ofLines hp).1⟩
  · rintro ⟨t, ht⟩
    cases hp : ofLines lines with
    | ok p => exact ⟨p, rfl⟩
    | error f =>
        rw [(ofLines_eq_error_iff lines f).mp hp] at ht
        cases ht

/-- **The label pass finds exactly the declarations.**  For all lines:

* the pass comes to its end exactly if no line has exactly one bar;
* then a name stands for the last line that has exactly two bars with the name between them, for
  none exactly if there is no such line, and the size of the table is the number of such names;
* otherwise it fails with a fault that has no message, in the first line with exactly one bar, at
  the number of bytes before that bar;
* in the program of the lines, a label is resolved to what it stands for, and a number to itself
  exactly if there is a line with that number.  The faults carry the label and the number. -/
theorem labels_are_declarations (lines : List Line) :
    ((∃ t, Labels.scan lines = .ok t) ↔ ∀ l ∈ lines, l.bars ≠ 1) ∧
    (∀ t, Labels.scan lines = .ok t →
      (∀ name a, t.get? name = some a ↔ IsGreatest {i | Labels.DeclaredAt lines name i} a) ∧
      (∀ name, t.get? name = none ↔ ∀ i, ¬ Labels.DeclaredAt lines name i) ∧
      {name | ∃ i, Labels.DeclaredAt lines name i}.encard = t.size) ∧
    (∀ f, Labels.scan lines = .error f →
      f.kind = .singleDelimiter ∧ f.message = "" ∧
      ∃ i l before, IsLeast {i | Labels.BrokenAt lines i} i ∧ f.line = some i ∧
        lines[i]? = some l ∧ l.Breaks before ∧
        f.column = some (Text.bytes (String.ofList before)).length) ∧
    ∀ p, ofLines lines = .ok p →
      Labels.scan lines = .ok p.labels ∧
      (∀ x, p.resolve (.label x) = match p.labels.get? x with
        | some a => .ok a
        | none => .error (.because .unresolvedJumpTarget x)) ∧
      ∀ i : Int64,
        (∀ a, p.resolve (.line i) = .ok a ↔
          0 ≤ i.toInt ∧ i.toInt < lines.length ∧ (a : Int) = i.toInt) ∧
        (¬ (0 ≤ i.toInt ∧ i.toInt < lines.length) →
          p.resolve (.line i) = .error (.because .invalidJumpTarget (toString i.toInt))) := by
  refine ⟨Labels.scan_ok_iff lines, ?_, ?_, ?_⟩
  · intro t ht
    have hdescribes := (Labels.scan_spec ht).1
    exact ⟨hdescribes.get?_iff, hdescribes.get?_eq_none_iff, hdescribes.encard_declared⟩
  · intro f hf
    obtain ⟨i, l, before, hleast, hl, hbreaks, rfl⟩ := Labels.scan_fault_spec hf
    exact ⟨rfl, rfl, i, l, before, hleast, rfl, hl, hbreaks, rfl⟩
  · intro p hp
    obtain ⟨hscan, hsize⟩ := labels_of_ofLines hp
    refine ⟨hscan, fun x => rfl, fun i => ⟨fun a => ?_, fun hout => ?_⟩⟩
    · rw [resolve_line, hsize]
      by_cases hin : 0 ≤ i.toInt ∧ i.toInt < lines.length
      · rw [if_pos hin, Except.ok.injEq]
        omega
      · rw [if_neg hin]
        constructor
        · intro h
          cases h
        · rintro ⟨hlow, hhigh, -⟩
          exact absurd ⟨hlow, hhigh⟩ hin
    · rw [resolve_line, hsize, if_neg hout]

/-- A program that declares `A` twice, and has a line with three bars. -/
def twice : List Line :=
  ["|A|", "é |B| POP", "|C|D|", " |A| "].map Line.ofString

/-- The same with a single bar behind two bytes and a blank. -/
def broken : List Line :=
  twice ++ ["é | ", "|"].map Line.ofString

theorem labels_are_declarations_twice :
    (∃ t, Labels.scan twice = .ok t ∧
      IsGreatest {i | Labels.DeclaredAt twice "A" i} 3 ∧
      (∀ i, ¬ Labels.DeclaredAt twice "C" i) ∧
      {name | ∃ i, Labels.DeclaredAt twice name i}.encard = 2) ∧
    (∃ f, Labels.scan broken = .error f ∧ IsLeast {i | Labels.BrokenAt broken i} 4 ∧
      f.column = some 3) ∧
    ∃ p, ofLines twice = .ok p ∧ p.resolve (.line 3) = .ok 3 ∧
      p.resolve (.line (-1)) = .error (.because .invalidJumpTarget "-1") := by
  refine ⟨⟨⟨[("A", 3), ("B", 1)]⟩, by decide +kernel, ?_⟩,
    ⟨⟨.singleDelimiter, some 4, some 3, ""⟩, by decide +kernel, ?_, rfl⟩, ?_⟩
  · obtain ⟨hget, hnone, hsize⟩ :=
      (labels_are_declarations twice).2.1 ⟨[("A", 3), ("B", 1)]⟩ (by decide +kernel)
    exact ⟨(hget "A" 3).mp rfl, (hnone "C").mp rfl, hsize⟩
  · obtain ⟨-, -, i, l, before, hleast, hline, -⟩ :=
      (labels_are_declarations broken).2.2.1 ⟨.singleDelimiter, some 4, some 3, ""⟩
        (by decide +kernel)
    cases hline
    exact hleast
  · obtain ⟨p, hp⟩ := (ofLines_ok_iff twice).mpr (by decide +kernel)
    have hresolve := ((labels_are_declarations twice).2.2.2 p hp).2.2
    exact ⟨p, hp, ((hresolve 3).1 3).mpr (by decide +kernel),
      (hresolve (-1)).2 (by decide +kernel)⟩

end Program
end Fifo
