import Fifo.Proofs.Statement.Layout
import Fifo.Source

/-!
# Rows of texts

Bytes are cut into rows behind each line feed (`Source.Cut`), and there is one way to do so.  In the
UTF-8 form of a text, a byte below 128 is always a character of its own, so that rows cut from a
text are texts, and remain so without the line feed and the carriage return at their end.  A program
file that is a text therefore has lines (`exists_lines_of_text`).

A row of input that is a text stands for the line it begins with (`Reads`); behind that there are
only line ends.
-/

namespace Fifo
namespace Text

/-- A byte below 128 in the form of a character is the whole of it. -/
theorem utf8EncodeChar_of_mem {c : Char} {b : UInt8} (hmem : b ∈ String.utf8EncodeChar c)
    (hb : b.toNat < 128) : String.utf8EncodeChar c = [b] ∧ c.toNat = b.toNat := by
  have hc : c.toNat = c.val.toNat := rfl
  unfold String.utf8EncodeChar at hmem ⊢
  simp only at hmem ⊢
  split at hmem
  · next hone =>
      obtain rfl := List.mem_singleton.mp hmem
      rw [if_pos hone]
      refine ⟨rfl, ?_⟩
      rw [UInt8.toNat_ofNat_of_lt' (Nat.lt_of_le_of_lt hone (by decide)), hc]
  · -- All bytes of a longer form are 128 or more.
    exfalso
    revert hb
    split at hmem
    · simp only [List.mem_cons, List.not_mem_nil, or_false] at hmem
      rcases hmem with rfl | rfl <;> simp only [UInt8.toNat_ofNat'] <;> omega
    · split at hmem
      · simp only [List.mem_cons, List.not_mem_nil, or_false] at hmem
        rcases hmem with rfl | rfl | rfl <;> simp only [UInt8.toNat_ofNat'] <;> omega
      · simp only [List.mem_cons, List.not_mem_nil, or_false] at hmem
        rcases hmem with rfl | rfl | rfl | rfl <;> simp only [UInt8.toNat_ofNat'] <;> omega

theorem bytes_ofList (cs : List Char) :
    bytes (String.ofList cs) = cs.flatMap String.utf8EncodeChar := by
  rw [bytes, String.toList_ofList]

theorem bytes_append (s t : String) : bytes (s ++ t) = bytes s ++ bytes t := by
  rw [bytes, String.toList_append, List.flatMap_append, bytes, bytes]

/-- A text can be parted at a byte below 128. -/
theorem exists_bytes_of_append {before rest : Bytes} {b : UInt8} {s : String} (hb : b.toNat < 128)
    (h : before ++ b :: rest = bytes s) : (∃ t, before = bytes t) ∧ ∃ u, rest = bytes u := by
  rw [bytes] at h
  generalize s.toList = cs at h
  induction cs generalizing before with
  | nil => simp at h
  | cons c cs ih =>
      rw [List.flatMap_cons] at h
      have hfirst : String.utf8EncodeChar c = bytes (String.ofList [c]) := by
        rw [bytes_ofList, List.flatMap_singleton]
      rcases List.append_eq_append_iff.mp h with ⟨run, hrun, hrest⟩ | ⟨run, hrun, hrest⟩
      · cases run with
        | nil =>
            rw [List.append_nil] at hrun
            exact ⟨⟨_, hrun.symm.trans hfirst⟩, (@ih [] hrest).2⟩
        | cons d run =>
            -- The byte is one of the first character's, so it is all of that.
            obtain ⟨rfl, rfl⟩ := List.cons.inj hrest
            have hone := (utf8EncodeChar_of_mem (c := c) (b := b) (by simp [hrun]) hb).1
            obtain ⟨rfl, hsingle⟩ : before = [] ∧ b :: run = [b] := by
              cases before with
              | nil => exact ⟨rfl, hrun.symm.trans hone⟩
              | cons e before => simp [hone] at hrun
            obtain rfl : run = [] := (List.cons.inj hsingle).2
            exact ⟨⟨"", rfl⟩, String.ofList cs, (bytes_ofList cs).symm⟩
      · obtain ⟨⟨t, rfl⟩, hu⟩ := ih hrest.symm
        refine ⟨⟨String.ofList [c] ++ t, ?_⟩, hu⟩
        rw [hrun, bytes_append, hfirst]

/-- Bytes are read as the text whose form they are. -/
theorem ofBytes?_eq_some_iff (bs : Bytes) (s : String) : ofBytes? bs = some s ↔ bs = bytes s := by
  have hform : ∀ t : String, t.toByteArray = ⟨(bytes t).toArray⟩ := by
    intro t
    have hencode : t.toByteArray = t.toList.utf8Encode := by
      rw [← String.toByteArray_ofList, String.ofList_toList]
    rw [hencode, bytes]
    exact ByteArray.ext List.data_toByteArray
  have hinj : ∀ as cs : Bytes, (⟨as.toArray⟩ : ByteArray) = ⟨cs.toArray⟩ → as = cs := by
    intro as cs heq
    exact Array.mk.inj (congrArg ByteArray.data heq)
  unfold ofBytes? String.fromUTF8?
  constructor
  · intro h
    split at h
    · obtain rfl := Option.some.inj h
      exact hinj _ _ (hform (String.fromUTF8 _ _))
    · cases h
  · rintro rfl
    have hvalid : (⟨(bytes s).toArray⟩ : ByteArray).IsValidUTF8 := hform s ▸ s.isValidUTF8
    rw [dif_pos hvalid]
    congr 1
    exact String.toByteArray_inj.mp (hform s).symm

end Text

namespace Source

theorem decode_eq_ok_iff (bs : Bytes) (s : String) : decode bs = .ok s ↔ bs = Text.bytes s := by
  rw [← Text.ofBytes?_eq_some_iff, decode]
  cases Text.ofBytes? bs with
  | none => simp
  | some t => simp

theorem decode_eq_error {bs : Bytes} (h : ∀ s, bs ≠ Text.bytes s) : decode bs = .error notText := by
  rw [decode]
  cases hread : Text.ofBytes? bs with
  | none => rfl
  | some s => exact absurd ((Text.ofBytes?_eq_some_iff bs s).mp hread) (h s)

/-- Bytes are cut into rows behind each line feed; the last row may lack it. -/
inductive Cut : Bytes → List Bytes → Prop
  | nothing : Cut [] []
  | last (row : Bytes) (hne : row ≠ []) (hrow : lineFeed ∉ row) : Cut row [row]
  | row (before rest : Bytes) (rows : List Bytes) (hbefore : lineFeed ∉ before)
      (hrest : Cut rest rows) :
      Cut (before ++ lineFeed :: rest) ((before ++ [lineFeed]) :: rows)

theorem Cut.addByte {bs : Bytes} {rows : List Bytes} (h : Cut bs rows) (b : UInt8) :
    Cut (b :: bs) (addByte b rows) := by
  unfold Source.addByte
  by_cases hb : b = lineFeed
  · rw [if_pos hb, hb]
    exact .row [] bs rows (by simp) h
  · rw [if_neg hb]
    have hextend : ∀ {run : Bytes}, lineFeed ∉ run → lineFeed ∉ b :: run := by
      intro run hrun hmem
      rcases List.mem_cons.mp hmem with heq | hold
      · exact hb heq.symm
      · exact hrun hold
    cases h with
    | nothing => exact .last [b] (by simp) (hextend (by simp))
    | last row hne hrow => exact .last (b :: bs) (by simp) (hextend hrow)
    | row before rest rows hbefore hrest =>
        exact .row (b :: before) rest rows (hextend hbefore) hrest

/-- The rows of bytes are those they are cut into. -/
theorem cut_rows (bs : Bytes) : Cut bs (rows bs) := by
  induction bs with
  | nil => exact .nothing
  | cons b bs ih =>
      rw [rows_cons]
      exact ih.addByte b

theorem rows_append_lineFeed {before : Bytes} (hbefore : lineFeed ∉ before) (rest : Bytes) :
    rows (before ++ lineFeed :: rest) = (before ++ [lineFeed]) :: rows rest := by
  induction before with
  | nil => rfl
  | cons b before ih =>
      have hb : b ≠ lineFeed := fun heq => hbefore (heq ▸ List.mem_cons_self)
      rw [List.cons_append, rows_cons, ih fun hmem => hbefore (List.mem_cons_of_mem _ hmem),
        addByte, if_neg hb]
      rfl

theorem rows_of_not_mem {row : Bytes} (hne : row ≠ []) (hrow : lineFeed ∉ row) :
    rows row = [row] := by
  induction row with
  | nil => exact absurd rfl hne
  | cons b row ih =>
      have hb : b ≠ lineFeed := fun heq => hrow (heq ▸ List.mem_cons_self)
      rw [rows_cons]
      unfold addByte
      rw [if_neg hb]
      by_cases hnil : row = []
      · rw [hnil]
        rfl
      · rw [ih hnil fun hmem => hrow (List.mem_cons_of_mem _ hmem)]

/-- There is only one way to cut bytes into rows. -/
theorem Cut.rows_eq {bs : Bytes} {rows : List Bytes} (h : Cut bs rows) : Source.rows bs = rows := by
  induction h with
  | nothing => rfl
  | last row hne hrow => exact rows_of_not_mem hne hrow
  | row before rest rows hbefore hrest ih => rw [rows_append_lineFeed hbefore, ih]

/-- Rows cut from a text are texts. -/
theorem Cut.exists_bytes {bs : Bytes} {rows : List Bytes} (h : Cut bs rows) {s : String}
    (hs : bs = Text.bytes s) : ∀ row ∈ rows, ∃ t, row = Text.bytes t := by
  induction h generalizing s with
  | nothing => simp
  | last row hne hrow =>
      intro found hfound
      obtain rfl := List.mem_singleton.mp hfound
      exact ⟨s, hs⟩
  | row before rest rows hbefore hrest ih =>
      obtain ⟨⟨t, rfl⟩, u, hu⟩ := Text.exists_bytes_of_append (by decide) hs
      intro found hfound
      rcases List.mem_cons.mp hfound with rfl | hmem
      · exact ⟨t ++ "\n", (Text.bytes_append t "\n").symm⟩
      · exact ih hu found hmem

/-- A row loses nothing, its line feed, or its line feed and one carriage return. -/
theorem chomp_cases (row : Bytes) :
    chomp row = row ∨ row = chomp row ++ [lineFeed] ∨
      row = chomp row ++ [carriageReturn] ++ [lineFeed] := by
  rcases List.eq_nil_or_concat row with rfl | ⟨init, b, rfl⟩
  · exact Or.inl rfl
  · rw [List.concat_eq_append]
    unfold chomp
    rw [List.reverse_concat]
    by_cases hb : b = lineFeed
    · subst hb
      refine Or.inr ?_
      rcases List.eq_nil_or_concat init with rfl | ⟨front, c, rfl⟩
      · exact Or.inl rfl
      · rw [List.concat_eq_append, List.reverse_concat]
        by_cases hc : c = carriageReturn
        · subst hc
          exact Or.inr (by simp)
        · exact Or.inl (by simp [hc])
    · exact Or.inl (by simp [hb])

/-- A row that is a text is one without its line end. -/
theorem exists_bytes_chomp {row : Bytes} {s : String} (h : row = Text.bytes s) :
    ∃ t, chomp row = Text.bytes t := by
  rcases chomp_cases row with hsame | hfeed | hreturn
  · exact ⟨s, hsame.trans h⟩
  · rw [hfeed] at h
    exact (Text.exists_bytes_of_append (by decide) h).1
  · rw [hreturn] at h
    obtain ⟨t, ht⟩ := (Text.exists_bytes_of_append (by decide) h).1
    exact (Text.exists_bytes_of_append (by decide) ht).1

theorem mapM_ok {α β : Type} {f : α → Except Fault β} {xs : List α}
    (h : ∀ x ∈ xs, ∃ y, f x = .ok y) : ∃ ys, xs.mapM f = .ok ys := by
  induction xs with
  | nil => exact ⟨[], rfl⟩
  | cons x xs ih =>
      obtain ⟨y, hy⟩ := h x List.mem_cons_self
      obtain ⟨ys, hys⟩ := ih fun z hz => h z (List.mem_cons_of_mem _ hz)
      refine ⟨y :: ys, ?_⟩
      rw [List.mapM_cons, hy, hys]
      rfl

/-- A program file that is a text has lines. -/
theorem exists_lines_of_text (s : String) : ∃ source, lines (Text.bytes s) = .ok source := by
  refine mapM_ok fun row hrow => ?_
  obtain ⟨t, ht⟩ := (cut_rows (Text.bytes s)).exists_bytes rfl row hrow
  obtain ⟨u, hu⟩ := exists_bytes_chomp ht
  exact ⟨u, (decode_eq_ok_iff _ _).mpr hu⟩

/-- A row of input stands for a line: the row is a text in which only line ends follow the line, and
the line itself does not end with one. -/
structure Reads (row : Bytes) (line : String) : Prop where
  row_eq : ∃ ends : String, row = Text.bytes (line ++ ends) ∧ ∀ c ∈ ends.toList, c = '\r' ∨ c = '\n'
  last_ne : ∀ c, line.toList.getLast? = some c → c ≠ '\r' ∧ c ≠ '\n'

theorem isLineEnd_iff (c : Char) : Text.isLineEnd c = true ↔ c = '\r' ∨ c = '\n' := by
  simp [Text.isLineEnd]

/-- The answer to a question is the line that the row stands for. -/
theorem Reads.reply_eq {row : Bytes} {line : String} (h : Reads row line) :
    reply row = .ok line := by
  obtain ⟨⟨ends, hrow, hends⟩, hlast⟩ := h
  have hrun : ∀ c ∈ ends.toList, Text.isLineEnd c = true :=
    fun c hc => (isLineEnd_iff c).mpr (hends c hc)
  have hline : Text.dropEndWhile Text.isLineEnd line.toList = line.toList := by
    cases hc : line.toList.getLast? with
    | none => rw [List.getLast?_eq_none_iff.mp hc, Text.dropEndWhile_nil]
    | some c =>
        have hstop : Text.isLineEnd c = false := by simp [Text.isLineEnd, hlast c hc]
        exact Text.dropEndWhile_of_getLast? hc hstop
  rw [reply, (decode_eq_ok_iff row _).mpr hrow, Except.map, String.toList_append,
    Text.dropEndWhile_append hrun, hline, String.ofList_toList]

/-- Every row that is a text stands for a line. -/
theorem exists_reads (text : String) : ∃ line, Reads (Text.bytes text) line := by
  have hsplit := List.takeWhile_append_dropWhile (p := Text.isLineEnd) (l := text.toList.reverse)
  generalize hends : text.toList.reverse.takeWhile Text.isLineEnd = ends at hsplit
  generalize hline : text.toList.reverse.dropWhile Text.isLineEnd = line at hsplit
  refine ⟨String.ofList line.reverse, ⟨String.ofList ends.reverse, ?_, ?_⟩, ?_⟩
  · rw [← String.ofList_append, ← List.reverse_append, hsplit, List.reverse_reverse,
      String.ofList_toList]
  · intro c hc
    rw [String.toList_ofList, List.mem_reverse, ← hends] at hc
    exact (isLineEnd_iff c).mp (List.mem_takeWhile_imp hc)
  · intro c hc
    rw [String.toList_ofList, List.getLast?_reverse, ← hline] at hc
    have hstop := Text.eq_false_of_head?_dropWhile hc
    simpa [Text.isLineEnd] using hstop

end Source
end Fifo
