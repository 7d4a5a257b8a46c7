import Fifo.Program.Listing

/-!
# Reading listings back

The column of numbers in a listing is as wide as the last number, and every number fits into it
(`length_digits_le_columnWidth`), so that the source stands at the same place in all rows.  Where no
line has a line feed in it, the line feeds of a listing end its rows and nothing else
(`listedRows_listing`).  The number of rows then gives the width of the column, and the rows without
it are the source again (`listedSource_listing`), whatever a line begins with.
-/

namespace Fifo
namespace Program

/-- No line of the program has a line feed in it. -/
def FeedFree (p : Program) : Prop :=
  ∀ l ∈ p.lines.toList, '\n' ∉ l.text.toList

/-- The rows of a text in which each row ends with a line feed. -/
def listedRows (text : String) : List (List Char) :=
  (text.toList.splitOn '\n').dropLast

/-- The source in a listing: what stands behind the column of numbers and a space. -/
def listedSource (text : String) : List String :=
  let rows := listedRows text
  rows.map fun row => String.ofList (row.drop (columnWidth rows.length + 1))

/-- The characters of a row: a number, right-aligned in a column, a space and a line. -/
def IsRow (width address : Nat) (l : Line) (row : List Char) : Prop :=
  ∃ pad, (∀ c ∈ pad, c = ' ') ∧ (pad ++ Decimal.digits address).length = width ∧
    row = pad ++ Decimal.digits address ++ ' ' :: l.text.toList

/-! ### The column of numbers -/

theorem length_digits_mono {m n : Nat} (h : m ≤ n) :
    (Decimal.digits m).length ≤ (Decimal.digits n).length := by
  have hpos : 0 < (Decimal.digits n).length := Nat.length_toDigits_pos
  have hn : n < 10 ^ (Decimal.digits n).length :=
    (Nat.length_toDigits_le_iff (by decide) hpos).mp (Nat.le_refl _)
  exact (Nat.length_toDigits_le_iff (by decide) hpos).mpr (Nat.lt_of_le_of_lt h hn)

/-- Every number fits into the column. -/
theorem length_digits_le_columnWidth {address count : Nat} (h : address < count) :
    (Decimal.digits address).length ≤ columnWidth count :=
  length_digits_mono (by omega)

theorem length_cell {width n : Nat} (h : (Decimal.digits n).length ≤ width) :
    (cell width n).length = width := by
  rw [cell, List.length_append, List.length_replicate]
  omega

theorem lineFeed_not_mem_cell (width n : Nat) : '\n' ∉ cell width n := by
  intro hmem
  rcases List.mem_append.mp hmem with hpad | hdigit
  · exact absurd (List.eq_of_mem_replicate hpad) (by decide)
  · have hchar := Nat.isDigit_of_mem_toDigits (by decide : 0 < 10) (Nat.le_refl 10) hdigit
    exact absurd hchar (by decide)

/-! ### Rows -/

/-- A row without the line feed that ends it. -/
def rowText (width address : Nat) (l : Line) : List Char :=
  cell width address ++ ' ' :: l.text.toList

def rowTexts (p : Program) : List (List Char) :=
  p.lines.toList.mapIdx (rowText (columnWidth p.size))

theorem toList_row (width address : Nat) (l : Line) :
    (row width address l).toList = rowText width address l ++ ['\n'] := by
  simp [row, rowText]

theorem isRow_rowText {width address : Nat} (l : Line)
    (h : (Decimal.digits address).length ≤ width) :
    IsRow width address l (rowText width address l) :=
  ⟨_, fun _ hc => List.eq_of_mem_replicate hc, length_cell h, rfl⟩

/-- Behind the column and the space stands the line. -/
theorem drop_rowText {width address : Nat} (l : Line)
    (h : (Decimal.digits address).length ≤ width) :
    (rowText width address l).drop (width + 1) = l.text.toList := by
  rw [rowText, List.drop_append, length_cell h]
  simp [length_cell h]

theorem getElem?_rowTexts (p : Program) (address : Nat) :
    p.rowTexts[address]? =
      (p.line? address).map (rowText (columnWidth p.size) address) := by
  rw [rowTexts, List.getElem?_mapIdx, Array.getElem?_toList, line?]

theorem length_rowTexts (p : Program) : p.rowTexts.length = p.size := by
  rw [rowTexts, List.length_mapIdx, Array.length_toList, size]

theorem lt_size_of_line? {p : Program} {address : Nat} {l : Line} (h : p.line? address = some l) :
    address < p.size :=
  (Array.getElem?_eq_some_iff.mp h).1

/-- A listing is its rows, each with a line feed behind it. -/
theorem toList_listing (p : Program) :
    p.listing.toList = p.rowTexts.flatMap (· ++ ['\n']) := by
  have hrows : p.rows.map String.toList = p.rowTexts.map (· ++ ['\n']) := by
    refine List.ext_getElem? fun address => ?_
    rw [List.getElem?_map, List.getElem?_map, getElem?_rowTexts, rows, List.getElem?_mapIdx,
      Array.getElem?_toList, line?]
    cases p.lines[address]? with
    | none => rfl
    | some l => exact congrArg some (toList_row _ address l)
  rw [listing, String.toList_join, List.flatMap_def, hrows, List.flatMap_def]

theorem lineFeed_not_mem_rowTexts {p : Program} (h : p.FeedFree) :
    ∀ row ∈ p.rowTexts, '\n' ∉ row := by
  intro row hrow hmem
  obtain ⟨address, hlt, rfl⟩ := List.mem_mapIdx.mp hrow
  rcases List.mem_append.mp hmem with hcell | hline
  · exact lineFeed_not_mem_cell _ _ hcell
  · rcases List.mem_cons.mp hline with hspace | htext
    · exact absurd hspace (by decide)
    · exact h _ (List.getElem_mem hlt) htext

/-- Rows that end with line feeds, and have no others, are found again. -/
theorem splitOn_rows {rows : List (List Char)} (h : ∀ row ∈ rows, '\n' ∉ row) :
    (rows.flatMap (· ++ ['\n'])).splitOn '\n' = rows ++ [[]] := by
  induction rows with
  | nil => rfl
  | cons row rows ih =>
      rw [List.flatMap_cons, List.append_assoc, List.singleton_append,
        List.splitOn_append_cons_self_of_not_mem (h row List.mem_cons_self),
        ih fun r hr => h r (List.mem_cons_of_mem _ hr), List.cons_append]

/-! ### The source in a listing -/

theorem listedRows_listing {p : Program} (h : p.FeedFree) : listedRows p.listing = p.rowTexts := by
  rw [listedRows, toList_listing, splitOn_rows (lineFeed_not_mem_rowTexts h), List.dropLast_concat]

theorem listedSource_listing {p : Program} (h : p.FeedFree) :
    listedSource p.listing = p.lines.toList.map Line.text := by
  rw [listedSource, listedRows_listing h, length_rowTexts]
  refine List.ext_getElem? fun address => ?_
  rw [List.getElem?_map, List.getElem?_map, getElem?_rowTexts, Array.getElem?_toList]
  cases hline : p.line? address with
  | none =>
      rw [line?] at hline
      rw [hline]
      rfl
  | some l =>
      have hfits := length_digits_le_columnWidth (lt_size_of_line? hline)
      rw [line?] at hline
      rw [hline, Option.map_some, Option.map_some, Option.map_some, drop_rowText l hfits,
        String.ofList_toList]

/-- The texts of its lines are a source of the program. -/
theorem ofSource_texts (p : Program) : ofSource (p.lines.toList.map Line.text) = .ok p := by
  have hlines : (p.lines.toList.map Line.text).map Line.ofString = p.lines.toList := by
    rw [List.map_map]
    exact List.map_id'' Line.ofString_text _
  rw [ofSource, hlines]
  cases hmade : ofLines p.lines.toList with
  | error f =>
      rw [ofLines_eq_error_iff, p.labels_eq] at hmade
      cases hmade
  | ok q =>
      have hsame : q.lines = p.lines := (lines_of_ofLines hmade).trans (Array.toArray_toList)
      rw [eq_of_lines_eq hsame]

/-- **The listing determines the program.**  Where no line has a line feed in it, a listing is as
many rows as the program has lines, each ended by a line feed and with no other in it.  A row holds
the number of its line, right-aligned in a column as wide as the last number, a space, and the text
of the line.  What stands behind the column and the space is the source again: the program made from
it is the same, with its lines, its labels and its listing.  Two such programs with one listing are
the same. -/
theorem listing_determines_program :
    (∀ p : Program, p.FeedFree →
      p.listing.toList = (listedRows p.listing).flatMap (· ++ ['\n']) ∧
      (∀ row ∈ listedRows p.listing, '\n' ∉ row) ∧
      (listedRows p.listing).length = p.size ∧
      (∀ (address : Nat) (l : Line), p.line? address = some l →
        ∃ row, (listedRows p.listing)[address]? = some row ∧
          IsRow (Decimal.digits (p.size - 1)).length address l row ∧
          row.drop ((Decimal.digits (p.size - 1)).length + 1) = l.text.toList) ∧
      listedSource p.listing = p.lines.toList.map Line.text ∧
      ofSource (listedSource p.listing) = .ok p) ∧
    ∀ p q : Program, p.FeedFree → q.FeedFree → p.listing = q.listing → p = q := by
  have hback : ∀ p : Program, p.FeedFree → ofSource (listedSource p.listing) = .ok p := by
    intro p hfree
    rw [listedSource_listing hfree]
    exact ofSource_texts p
  refine ⟨fun p hfree => ?_, fun p q hp hq hsame => ?_⟩
  · refine ⟨?_, ?_, ?_, fun address l hline => ?_, listedSource_listing hfree, hback p hfree⟩
    · rw [listedRows_listing hfree, toList_listing]
    · rw [listedRows_listing hfree]
      exact lineFeed_not_mem_rowTexts hfree
    · rw [listedRows_listing hfree, length_rowTexts]
    · have hfits := length_digits_le_columnWidth (lt_size_of_line? hline)
      refine ⟨_, ?_, isRow_rowText l hfits, drop_rowText l hfits⟩
      rw [listedRows_listing hfree, getElem?_rowTexts, hline]
      rfl
  · have hread := hback p hp
    rw [hsame, hback q hq] at hread
    exact (Except.ok.inj hread).symm

/-- Eleven lines, some of which begin with what could be read as a number. -/
def elevenLines : List Line :=
  (List.replicate 10 "7 " ++ [" |A|"]).map Line.ofString

def eleven : Program :=
  ⟨elevenLines.toArray, ⟨[("A", 10)]⟩, elevenLines.toArray.mapIdx Line.decode, rfl, rfl⟩

theorem listing_determines_program_eleven :
    eleven.FeedFree ∧
      (listedRows eleven.listing)[9]? = some " 9 7 ".toList ∧
      (listedRows eleven.listing)[10]? = some "10  |A|".toList ∧
      ofSource (listedSource eleven.listing) = .ok eleven := by
  have hfree : eleven.FeedFree := by
    unfold FeedFree
    decide +kernel
  obtain ⟨-, -, -, -, -, hsource⟩ := listing_determines_program.1 eleven hfree
  exact ⟨hfree, by decide +kernel, by decide +kernel, hsource⟩

end Program
end Fifo
