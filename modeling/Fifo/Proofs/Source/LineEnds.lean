import Fifo.Proofs.Command.Report
import Fifo.Proofs.Value.Order
import Mathlib.Data.List.DropRight
import Mathlib.Data.List.Forall2
import Mathlib.Data.List.Induction

/-!
# Line ends of program files

How the lines of a program file end makes no difference to the program.  A reader takes the line
feed off each row and one carriage return before it, and a line drops all that are left, so that
what remains of a row is its segment between line feeds without the carriage returns at its end
(`lines_segments`).  A file is read exactly if it is a text as a whole, although it is decoded row
by row: a line feed cannot be part of another character (`isText_append_iff`).

A change of line ends (`Restyled`) leaves both as they were (`Restyled.alike`), and files that are
alike in these are alike in all that follows: in their program and in its run (`Alike.program_eq`,
`Alike.runFile_eq`).
-/

namespace Fifo
namespace Source

/-- The bytes are the UTF-8 form of a text. -/
def IsText (bs : Bytes) : Prop :=
  ∃ s, bs = Text.bytes s

/-- The segments between the line feeds, without the last one if that is empty. -/
def segments (content : Bytes) : List Bytes :=
  let pieces := content.splitOn lineFeed
  if pieces.getLast? = some [] then pieces.dropLast else pieces

/-- A segment without the carriage returns at its end. -/
def withoutReturns (segment : Bytes) : Bytes :=
  segment.rdropWhile (· == carriageReturn)

/-- A change of line ends: carriage returns are put before a line feed, or a line feed is put behind
a last segment that is not empty. -/
inductive Restyled : Bytes → Bytes → Prop
  | returns (before rest : Bytes) (count : Nat) :
      Restyled (before ++ lineFeed :: rest)
        (before ++ List.replicate count carriageReturn ++ lineFeed :: rest)
  | feed (before : Bytes) (b : UInt8) (hb : b ≠ lineFeed) :
      Restyled (before ++ [b]) (before ++ [b] ++ [lineFeed])

/-! ### Texts -/

theorem IsText.append {as bs : Bytes} (ha : IsText as) (hb : IsText bs) : IsText (as ++ bs) := by
  obtain ⟨s, rfl⟩ := ha
  obtain ⟨t, rfl⟩ := hb
  exact ⟨s ++ t, (Text.bytes_append s t).symm⟩

theorem isText_lineFeed : IsText [lineFeed] :=
  ⟨"\n", rfl⟩

theorem isText_carriageReturn : IsText [carriageReturn] :=
  ⟨"\r", rfl⟩

/-- Whether bytes are a text can be told apart before and behind a byte that is one. -/
theorem isText_append_iff {before rest : Bytes} {b : UInt8} (hb : b.toNat < 128)
    (htext : IsText [b]) : IsText (before ++ b :: rest) ↔ IsText before ∧ IsText rest := by
  constructor
  · rintro ⟨s, hs⟩
    exact Text.exists_bytes_of_append hb hs
  · rintro ⟨hbefore, hrest⟩
    rw [← List.singleton_append, ← List.append_assoc]
    exact (hbefore.append htext).append hrest

theorem isText_append_returns_iff (before : Bytes) (count : Nat) :
    IsText (before ++ List.replicate count carriageReturn) ↔ IsText before := by
  induction count with
  | zero => rw [List.replicate_zero, List.append_nil]
  | succ count ih =>
      rw [List.replicate_succ', ← List.append_assoc,
        isText_append_iff (by decide) isText_carriageReturn, ih]
      exact and_iff_left ⟨"", rfl⟩

theorem isText_chomp_iff (row : Bytes) : IsText (chomp row) ↔ IsText row := by
  refine ⟨fun h => ?_, fun ⟨s, hs⟩ => exists_bytes_chomp hs⟩
  rcases chomp_cases row with hsame | hfeed | hreturn
  · rwa [hsame] at h
  · rw [hfeed]
    exact h.append isText_lineFeed
  · rw [hreturn]
    exact (h.append isText_carriageReturn).append isText_lineFeed

/-! ### Reading -/

theorem forall₂_of_mapM {α β : Type} {f : α → Except Fault β} {xs : List α} {ys : List β}
    (h : xs.mapM f = .ok ys) : List.Forall₂ (fun x y => f x = .ok y) xs ys := by
  induction xs generalizing ys with
  | nil =>
      obtain rfl : [] = ys := Except.ok.inj h
      exact .nil
  | cons x xs ih =>
      rw [List.mapM_cons] at h
      cases hx : f x with
      | error e =>
          rw [hx] at h
          cases h
      | ok y =>
          cases hxs : xs.mapM f with
          | error e =>
              rw [hx, hxs] at h
              cases h
          | ok rest =>
              rw [hx, hxs] at h
              obtain rfl : y :: rest = ys := Except.ok.inj h
              exact .cons hx (ih hxs)

theorem exists_of_mapM_eq_error {α β : Type} {f : α → Except Fault β} {xs : List α} {e : Fault}
    (h : xs.mapM f = .error e) : ∃ x ∈ xs, f x = .error e := by
  induction xs with
  | nil => cases h
  | cons x xs ih =>
      rw [List.mapM_cons] at h
      cases hx : f x with
      | error e' =>
          rw [hx] at h
          exact ⟨x, List.mem_cons_self, hx.trans (congrArg _ (Except.error.inj h))⟩
      | ok y =>
          cases hxs : xs.mapM f with
          | ok rest =>
              rw [hx, hxs] at h
              cases h
          | error e' =>
              rw [hx, hxs] at h
              obtain ⟨z, hz, hfault⟩ := ih (hxs.trans (congrArg _ (Except.error.inj h)))
              exact ⟨z, List.mem_cons_of_mem x hz, hfault⟩

/-- The lines of a file are its rows without their line ends, as texts. -/
theorem forall₂_of_lines {content : Bytes} {source : List String}
    (h : lines content = .ok source) :
    List.Forall₂ (fun row s => chomp row = Text.bytes s) (rows content) source :=
  (forall₂_of_mapM h).imp fun row s => (decode_eq_ok_iff (chomp row) s).mp

/-- A file has no lines only because it is no text. -/
theorem eq_notText_of_lines {content : Bytes} {f : Fault} (h : lines content = .error f) :
    f = notText := by
  obtain ⟨row, -, hrow⟩ := exists_of_mapM_eq_error h
  unfold decode at hrow
  split at hrow
  · cases hrow
  · exact (Except.error.inj hrow).symm

/-- Rows that are texts without their line ends make up a text. -/
theorem isText_flatten {rows : List Bytes} {source : List String}
    (h : List.Forall₂ (fun row s => chomp row = Text.bytes s) rows source) :
    IsText rows.flatten := by
  induction h with
  | nil => exact ⟨"", rfl⟩
  | cons hrow hrest ih =>
      rw [List.flatten_cons]
      exact ((isText_chomp_iff _).mp ⟨_, hrow⟩).append ih

/-- A file has lines exactly if it is a text as a whole. -/
theorem exists_lines_iff (content : Bytes) :
    (∃ source, lines content = .ok source) ↔ IsText content := by
  constructor
  · rintro ⟨source, hsource⟩
    rw [← flatten_rows content]
    exact isText_flatten (forall₂_of_lines hsource)
  · rintro ⟨s, rfl⟩
    exact exists_lines_of_text s

theorem lines_eq_error_iff (content : Bytes) (f : Fault) :
    lines content = .error f ↔ f = notText ∧ ¬ IsText content := by
  rw [← exists_lines_iff]
  cases hlines : lines content with
  | ok source => simp
  | error g =>
      obtain rfl := eq_notText_of_lines hlines
      simp [eq_comm]

/-! ### Segments -/

theorem splitOn_append (before rest : Bytes) :
    (before ++ lineFeed :: rest).splitOn lineFeed =
      before.splitOn lineFeed ++ rest.splitOn lineFeed :=
  List.splitOnP_append_cons before rest (by simp)

theorem segments_append (before rest : Bytes) :
    segments (before ++ lineFeed :: rest) = before.splitOn lineFeed ++ segments rest := by
  have hne : rest.splitOn lineFeed ≠ [] := List.splitOnP_ne_nil _ rest
  unfold segments
  simp only [splitOn_append]
  -- The last piece is that of the rest, which has at least one.
  rw [List.getLast?_append, List.getLast?_eq_some_getLast hne, Option.some_or]
  split
  · exact List.dropLast_append_of_ne_nil hne
  · rfl

theorem splitOn_of_not_mem {segment : Bytes} (h : lineFeed ∉ segment) :
    segment.splitOn lineFeed = [segment] := by
  refine List.splitOnP_eq_singleton fun b hb => ?_
  rw [beq_eq_false_iff_ne]
  rintro rfl
  exact h hb

theorem segments_of_not_mem {segment : Bytes} (hne : segment ≠ []) (h : lineFeed ∉ segment) :
    segments segment = [segment] := by
  unfold segments
  simp [splitOn_of_not_mem h, hne]

theorem withoutReturns_append_returns (segment : Bytes) (count : Nat) :
    withoutReturns (segment ++ List.replicate count carriageReturn) = withoutReturns segment := by
  induction count with
  | zero => rw [List.replicate_zero, List.append_nil]
  | succ count ih =>
      rw [List.replicate_succ', ← List.append_assoc, withoutReturns,
        List.rdropWhile_concat_pos _ _ _ (by simp)]
      exact ih

/-- Bytes have no line feed, or the last one parts them. -/
theorem exists_last_segment (bs : Bytes) :
    lineFeed ∉ bs ∨ ∃ early last, bs = early ++ lineFeed :: last ∧ lineFeed ∉ last := by
  by_cases hmem : lineFeed ∈ bs
  · obtain ⟨last, early, hreverse, hlast⟩ :=
      List.eq_append_cons_of_mem (List.mem_reverse.mpr hmem)
    refine Or.inr ⟨early.reverse, last.reverse, ?_, by simpa using hlast⟩
    rw [← List.reverse_reverse bs, hreverse]
    simp
  · exact Or.inl hmem

/-- Carriage returns at the end are dropped from the last segment. -/
theorem splitOn_append_returns (before : Bytes) (count : Nat) :
    ((before ++ List.replicate count carriageReturn).splitOn lineFeed).map withoutReturns =
      (before.splitOn lineFeed).map withoutReturns := by
  have hone : ∀ segment : Bytes, lineFeed ∉ segment →
      ((segment ++ List.replicate count carriageReturn).splitOn lineFeed).map withoutReturns =
        (segment.splitOn lineFeed).map withoutReturns := by
    intro segment hsegment
    have hlonger : lineFeed ∉ segment ++ List.replicate count carriageReturn := by
      intro hmem
      rcases List.mem_append.mp hmem with hold | hreturn
      · exact hsegment hold
      · exact absurd (List.eq_of_mem_replicate hreturn) (by decide)
    rw [splitOn_of_not_mem hsegment, splitOn_of_not_mem hlonger, List.map_singleton,
      List.map_singleton, withoutReturns_append_returns]
  rcases exists_last_segment before with hbefore | ⟨early, last, rfl, hlast⟩
  · exact hone before hbefore
  · rw [List.append_assoc, List.cons_append, splitOn_append, splitOn_append, List.map_append,
      List.map_append, hone last hlast]

/-- Bytes that do not end with a line feed have a last segment that is not empty. -/
theorem segments_concat (before : Bytes) {b : UInt8} (hb : b ≠ lineFeed) :
    segments (before ++ [b]) = (before ++ [b]).splitOn lineFeed := by
  have hone : ∀ segment : Bytes, lineFeed ∉ segment →
      segments (segment ++ [b]) = [segment ++ [b]] ∧
        (segment ++ [b]).splitOn lineFeed = [segment ++ [b]] := by
    intro segment hsegment
    have hlonger : lineFeed ∉ segment ++ [b] := by simp [hsegment, hb.symm]
    exact ⟨segments_of_not_mem (by simp) hlonger, splitOn_of_not_mem hlonger⟩
  rcases exists_last_segment before with hbefore | ⟨early, last, rfl, hlast⟩
  · rw [(hone before hbefore).1, (hone before hbefore).2]
  · rw [List.append_assoc, List.cons_append, segments_append, splitOn_append, (hone last hlast).1,
      (hone last hlast).2]

theorem chomp_of_not_mem {row : Bytes} (h : lineFeed ∉ row) : chomp row = row := by
  rcases chomp_cases row with hsame | hfeed | hreturn
  · exact hsame
  · exact absurd (hfeed ▸ List.mem_append_right _ List.mem_cons_self) h
  · exact absurd (hreturn ▸ List.mem_append_right _ List.mem_cons_self) h

/-- With the line feed goes at most a carriage return. -/
theorem chomp_concat_lineFeed (before : Bytes) :
    chomp (before ++ [lineFeed]) = before ∨
      before = chomp (before ++ [lineFeed]) ++ [carriageReturn] := by
  unfold chomp
  rw [List.reverse_concat]
  rcases List.eq_nil_or_concat before with rfl | ⟨front, c, rfl⟩
  · exact Or.inl rfl
  · rw [List.concat_eq_append, List.reverse_concat]
    by_cases hc : c = carriageReturn
    · subst hc
      exact Or.inr (by simp)
    · exact Or.inl (by simp [hc])

/-- Only a carriage return ends, in bytes, with one. -/
theorem exists_form_concat {c : Char} (hc : c ≠ '\r') :
    ∃ front b, String.utf8EncodeChar c = front ++ [b] ∧ b ≠ carriageReturn := by
  rcases List.eq_nil_or_concat (String.utf8EncodeChar c) with hnil | ⟨front, b, hform⟩
  · have hsize := Char.utf8Size_pos c
    rw [← String.length_utf8EncodeChar, hnil] at hsize
    cases hsize
  · rw [List.concat_eq_append] at hform
    refine ⟨front, b, hform, ?_⟩
    rintro rfl
    have hmem : carriageReturn ∈ String.utf8EncodeChar c := by simp [hform]
    exact hc (Char.toNat_inj.mp (Text.utf8EncodeChar_of_mem hmem (by decide)).2)

/-- What a line keeps of a text without line feeds, in bytes. -/
theorem bytes_text_ofString {s : String} (h : lineFeed ∉ Text.bytes s) :
    Text.bytes (Line.ofString s).text = withoutReturns (Text.bytes s) := by
  rw [Line.ofString, Text.bytes_ofList]
  unfold Text.bytes at h ⊢
  generalize s.toList = cs at h ⊢
  induction cs using List.reverseRecOn with
  | nil => rfl
  | append_singleton cs c ih =>
      rw [List.flatMap_append, List.mem_append, not_or, List.flatMap_singleton] at h
      by_cases hreturn : c = '\r'
      · subst hreturn
        rw [Text.dropEndWhile_concat_of_pos cs rfl, List.flatMap_append, ih h.1]
        exact (List.rdropWhile_concat_pos _ _ carriageReturn rfl).symm
      · have hfeed : c ≠ '\n' := by
          rintro rfl
          exact h.2 List.mem_cons_self
        have hstop : Text.isLineEnd c = false := by simp [Text.isLineEnd, hreturn, hfeed]
        obtain ⟨front, b, hform, hb⟩ := exists_form_concat hreturn
        rw [Text.dropEndWhile_concat_of_neg cs hstop, List.flatMap_append, List.flatMap_singleton,
          hform, ← List.append_assoc]
        exact (List.rdropWhile_concat_neg _ _ b (by simpa using hb)).symm

theorem Cut.map_text_eq {content : Bytes} {rows : List Bytes} (hcut : Cut content rows)
    {source : List String}
    (h : List.Forall₂ (fun row s => chomp row = Text.bytes s) rows source) :
    source.map (fun s => Text.bytes (Line.ofString s).text) =
      (segments content).map withoutReturns := by
  induction hcut generalizing source with
  | nothing =>
      cases h with
      | nil => rfl
  | last row hne hrow =>
      cases h with
      | cons hfirst hrest =>
          cases hrest with
          | nil =>
              rw [chomp_of_not_mem hrow] at hfirst
              rw [segments_of_not_mem hne hrow, List.map_singleton, List.map_singleton, hfirst,
                bytes_text_ofString (hfirst ▸ hrow)]
  | row before rest rows hbefore hrest ih =>
      cases h with
      | @cons _ s _ source hfirst hlater =>
          have hline : Text.bytes (Line.ofString s).text = withoutReturns before := by
            rcases chomp_concat_lineFeed before with hsame | hreturn
            · rw [hsame] at hfirst
              rw [bytes_text_ofString (hfirst ▸ hbefore), hfirst]
            · rw [hfirst] at hreturn
              have hkept : lineFeed ∉ Text.bytes s := by
                intro hmem
                exact hbefore (hreturn ▸ List.mem_append_left _ hmem)
              rw [bytes_text_ofString hkept, hreturn]
              exact (withoutReturns_append_returns _ 1).symm
          rw [segments_append, splitOn_of_not_mem hbefore, List.singleton_append, List.map_cons,
            List.map_cons, hline, ih hlater]

/-- The lines of a program are the segments of its file without the carriage returns at their
ends. -/
theorem lines_segments {content : Bytes} {source : List String} (h : lines content = .ok source) :
    source.map (fun s => Text.bytes (Line.ofString s).text) =
      (segments content).map withoutReturns :=
  (cut_rows content).map_text_eq (forall₂_of_lines h)

/-! ### Changes of line ends -/

/-- Two files are texts or not, and have the same segments but for carriage returns at their ends.
-/
structure Alike (content content' : Bytes) : Prop where
  isText_iff : IsText content ↔ IsText content'
  segments_eq : (segments content).map withoutReturns = (segments content').map withoutReturns

theorem Restyled.alike {content content' : Bytes} (h : Restyled content content') :
    Alike content content' := by
  cases h with
  | returns before rest count =>
      constructor
      · rw [isText_append_iff (by decide) isText_lineFeed,
          isText_append_iff (by decide) isText_lineFeed, isText_append_returns_iff]
      · rw [segments_append, segments_append, List.map_append, List.map_append,
          splitOn_append_returns]
  | feed before b hb =>
      constructor
      · rw [isText_append_iff (by decide) isText_lineFeed]
        exact (and_iff_left ⟨"", rfl⟩).symm
      · rw [segments_append, segments_concat before hb]
        simp [segments]

theorem alike_of_restyled {content content' : Bytes}
    (h : Relation.EqvGen Restyled content content') : Alike content content' := by
  induction h with
  | rel _ _ h => exact h.alike
  | refl _ => exact ⟨Iff.rfl, rfl⟩
  | symm _ _ _ ih => exact ⟨ih.isText_iff.symm, ih.segments_eq.symm⟩
  | trans _ _ _ _ _ ih ih' =>
      exact ⟨ih.isText_iff.trans ih'.isText_iff, ih.segments_eq.trans ih'.segments_eq⟩

theorem text_injective : Function.Injective Line.text := by
  rintro ⟨text, trimmed⟩ ⟨text', trimmed'⟩ rfl
  rfl

theorem Alike.lines_eq {content content' : Bytes} (h : Alike content content')
    {source source' : List String} (hs : lines content = .ok source)
    (hs' : lines content' = .ok source') :
    source.map Line.ofString = source'.map Line.ofString := by
  have hinjective : Function.Injective fun l : Line => Text.bytes l.text :=
    Text.bytes_injective.comp text_injective
  have hbytes : (source.map Line.ofString).map (fun l => Text.bytes l.text) =
      (source'.map Line.ofString).map (fun l => Text.bytes l.text) := by
    simp only [List.map_map, Function.comp_def]
    rw [lines_segments hs, lines_segments hs', h.segments_eq]
  exact List.map_injective_iff.mpr hinjective hbytes

theorem Alike.program_eq {content content' : Bytes} (h : Alike content content')
    {source source' : List String} (hs : lines content = .ok source)
    (hs' : lines content' = .ok source') : Program.ofSource source = Program.ofSource source' :=
  congrArg Program.ofLines (h.lines_eq hs hs')

theorem Alike.error_iff {content content' : Bytes} (h : Alike content content') (f : Fault) :
    lines content = .error f ↔ lines content' = .error f := by
  rw [lines_eq_error_iff, lines_eq_error_iff, h.isText_iff]

theorem load_of_read {read : String → Except ReadFailure Bytes} {path : String} {content : Bytes}
    (hname : Path.isProgram path = true) (hread : read path = .ok content) :
    load read path = lines content := by
  rw [load, if_pos hname, hread]

theorem bytes_lines_of_ofSource {content : Bytes} {source : List String} {p : Program}
    (hsource : lines content = .ok source) (hp : Program.ofSource source = .ok p) :
    p.lines.toList.map (fun l => Text.bytes l.text) = (segments content).map withoutReturns := by
  rw [Program.lines_of_ofLines hp, ← lines_segments hsource]
  simp only [List.map_map, Function.comp_def]

/-- A session depends on the program and not on the text it was made from. -/
theorem prepare_eq {clock : Random.Clock} {options : Command.Options} {source source' : List String}
    (h : Program.ofSource source = Program.ofSource source') :
    Command.prepare clock options source = Command.prepare clock options source' := by
  simp only [Command.prepare, Machine.load, h]

/-- Files that are alike are run alike. -/
theorem Alike.runFile_eq {content content' : Bytes} (h : Alike content content')
    {tree tree' : FileTree} {options : Command.Options}
    (hfile : tree.read options.file = .ok content) (hfile' : tree'.read options.file = .ok content')
    (clock : Random.Clock) (slices : Nat) (input : Bytes) :
    Command.runFile clock slices tree options input =
      Command.runFile clock slices tree' options input := by
  unfold Command.runFile
  by_cases hname : Path.isProgram options.file = true
  · rw [load_of_read hname hfile, load_of_read hname hfile']
    cases hs : lines content with
    | error f => rw [(h.error_iff f).mp hs]
    | ok source =>
        cases hs' : lines content' with
        | error f =>
            rw [(h.error_iff f).mpr hs'] at hs
            cases hs
        | ok source' => simp only [Except.bind, prepare_eq (h.program_eq hs hs')]
  · rw [load, load, if_neg hname, if_neg hname]

/-- **How lines end does not matter.**  A program file that exists is read exactly if it is a text
as a whole, and otherwise the fault is internal.  The lines of its program are the segments between
its line feeds, less the last one if that is empty, each without the carriage returns at its end.
So let two files differ only in that carriage returns are put before line feeds or taken away there,
and a line feed put behind a last segment that is not empty or taken away there, any number of
times.  They are read alike, with the same fault if there is one; they give the same program, or the
same fault of its labels; and every machine that loads them and every command that runs them does
the same. -/
theorem line_ends_do_not_matter :
    (∀ (read : String → Except ReadFailure Bytes) (path : String) (content : Bytes),
      Path.isProgram path = true → read path = .ok content →
      ((∃ f, load read path = .error f) ↔ ¬ IsText content) ∧
      (∀ f, load read path = .error f → f.kind = .internalError) ∧
      ∀ source p, load read path = .ok source → Program.ofSource source = .ok p →
        p.lines.toList.map (fun l => Text.bytes l.text) =
          (segments content).map withoutReturns) ∧
    ∀ content content' : Bytes, Relation.EqvGen Restyled content content' →
      (∀ (read read' : String → Except ReadFailure Bytes) (path : String),
        Path.isProgram path = true → read path = .ok content → read' path = .ok content' →
        (∀ f, load read path = .error f ↔ load read' path = .error f) ∧
        ∀ source source', load read path = .ok source → load read' path = .ok source' →
          Program.ofSource source = Program.ofSource source' ∧
          ∀ m : Machine, m.load source = m.load source') ∧
      ∀ (clock : Random.Clock) (slices : Nat) (tree tree' : FileTree) (args : List String)
        (options : Command.Options) (input : Bytes),
        Command.Request.ofArguments args = .run options →
        tree.read options.file = .ok content → tree'.read options.file = .ok content' →
        Command.run clock slices tree args input = Command.run clock slices tree' args input := by
  refine ⟨fun read path content hname hread => ?_, fun content content' hrestyled => ⟨?_, ?_⟩⟩
  · rw [load_of_read hname hread]
    refine ⟨?_, fun f hf => ?_, fun source p => bytes_lines_of_ofSource⟩
    · simp [lines_eq_error_iff]
    · rw [eq_notText_of_lines hf]
      rfl
  · intro read read' path hname hread hread'
    rw [load_of_read hname hread, load_of_read hname hread']
    have halike := alike_of_restyled hrestyled
    refine ⟨halike.error_iff, fun source source' hs hs' => ?_⟩
    have hprogram := halike.program_eq hs hs'
    refine ⟨hprogram, fun m => ?_⟩
    simp only [Machine.load, hprogram]
  · intro clock slices tree tree' args options input hargs hfile hfile'
    simp only [Command.run, hargs]
    exact (alike_of_restyled hrestyled).runFile_eq hfile hfile' clock slices input

/-- A file whose lines end in three ways, the last one not at all. -/
def mixed : Bytes :=
  Text.bytes "PUSH 1\r\r\nPOPLN\r\n\nRET"

/-- The same file with a line feed at the end of each line. -/
def plain : Bytes :=
  Text.bytes "PUSH 1\nPOPLN\n\nRET\n"

theorem restyled_plain_mixed : Relation.EqvGen Restyled plain mixed := by
  have hfeed : Relation.EqvGen Restyled plain (Text.bytes "PUSH 1\nPOPLN\n\nRET") :=
    .symm _ _ (.rel _ _ (.feed (Text.bytes "PUSH 1\nPOPLN\n\nRE") 84 (by decide)))
  have hfirst : Relation.EqvGen Restyled (Text.bytes "PUSH 1\nPOPLN\n\nRET")
      (Text.bytes "PUSH 1\r\r\nPOPLN\n\nRET") :=
    .rel _ _ (.returns (Text.bytes "PUSH 1") (Text.bytes "POPLN\n\nRET") 2)
  have hsecond : Relation.EqvGen Restyled (Text.bytes "PUSH 1\r\r\nPOPLN\n\nRET") mixed :=
    .rel _ _ (.returns (Text.bytes "PUSH 1\r\r\nPOPLN") (Text.bytes "\nRET") 1)
  exact .trans _ _ _ hfeed (.trans _ _ _ hfirst hsecond)

theorem line_ends_do_not_matter_mixed :
    load (fun _ => .ok plain) "a.qu" = .ok ["PUSH 1", "POPLN", "", "RET"] ∧
      load (fun _ => .ok mixed) "a.qu" = .ok ["PUSH 1\r", "POPLN", "", "RET"] ∧
      Program.ofSource ["PUSH 1", "POPLN", "", "RET"] =
        Program.ofSource ["PUSH 1\r", "POPLN", "", "RET"] ∧
      ¬ IsText [80, 255, 10] ∧
      ∀ clock slices, Command.run clock slices (FileTree.empty.writeFile "a.qu" plain) ["a.qu"] [] =
        Command.run clock slices (FileTree.empty.writeFile "a.qu" mixed) ["a.qu"] [] := by
  obtain ⟨hread, halike⟩ := line_ends_do_not_matter
  obtain ⟨hload, hrun⟩ := halike plain mixed restyled_plain_mixed
  have hplain : load (fun _ => .ok plain) "a.qu" = .ok ["PUSH 1", "POPLN", "", "RET"] := by
    decide +kernel
  have hmixed : load (fun _ => .ok mixed) "a.qu" = .ok ["PUSH 1\r", "POPLN", "", "RET"] := by
    decide +kernel
  refine ⟨hplain, hmixed, ?_, ?_, fun clock slices => ?_⟩
  · exact ((hload _ _ "a.qu" (by decide +kernel) rfl rfl).2 _ _ hplain hmixed).1
  · exact (hread (fun _ => .ok [80, 255, 10]) "a.qu" [80, 255, 10] (by decide +kernel) rfl).1.mp
      ⟨notText, by decide +kernel⟩
  · exact hrun clock slices _ _ ["a.qu"] ⟨"a.qu", none, false, 5000⟩ [] (by decide +kernel)
      (by decide +kernel) (by decide +kernel)

end Source
end Fifo
