import Fifo.Proofs.Machine.Faults
import Fifo.Proofs.Program.Declarations

/-!
# Programs with a line put in

A line that does nothing is put into a program at the index `i`.  Lines behind it move on by one,
and so does everything that names them: labels, and the faults of lines that cannot be decoded.
`Program.Widens` says what the two programs have in common, and `widens_insertIdx` that putting in
an inert line widens a program.

Targets by number stay as they are written, so the two programs go on alike only if all jumps are to
labels (`Program.ByLabel`).
-/

namespace Fifo

open Text

/-- The address that a line has once another line was put in at `i`. -/
def shift (i address : Nat) : Nat :=
  if address < i then address else address + 1

theorem shift_of_lt {i address : Nat} (h : address < i) : shift i address = address :=
  if_pos h

theorem shift_of_le {i address : Nat} (h : i ≤ address) : shift i address = address + 1 :=
  if_neg (Nat.not_lt.mpr h)

theorem shift_le_shift {i a b : Nat} (h : a ≤ b) : shift i a ≤ shift i b := by
  unfold shift
  split <;> split <;> omega

/-- Every address but that of the new line is one that an old line has moved to. -/
theorem exists_shift_of_ne {i address : Nat} (h : address ≠ i) : ∃ a, address = shift i a := by
  rcases Nat.lt_or_gt_of_ne h with hlt | hgt
  · exact ⟨address, (shift_of_lt hlt).symm⟩
  · refine ⟨address - 1, ?_⟩
    rw [shift_of_le (by omega)]
    omega

theorem getElem?_insertIdx_shift {α : Type} (xs : List α) (x : α) (i a : Nat) :
    (xs.insertIdx i x)[shift i a]? = xs[a]? := by
  rw [List.getElem?_insertIdx]
  by_cases h : a < i
  · rw [shift_of_lt h, if_pos h]
  · rw [shift_of_le (Nat.le_of_not_lt h), if_neg (by omega), if_neg (by omega),
      Nat.add_sub_cancel]

theorem getElem?_insertIdx_new {α : Type} {xs : List α} (x : α) {i : Nat} (h : i ≤ xs.length) :
    (xs.insertIdx i x)[i]? = some x := by
  rw [List.getElem?_insertIdx, if_neg (Nat.lt_irrefl i), if_pos rfl, if_pos h]

/-- The fault as it is once a line was put in at `i`. -/
def Fault.moved (i : Nat) (f : Fault) : Fault :=
  { f with line := f.line.map (shift i) }

theorem Fault.moved_of_line_eq_none {f : Fault} (h : f.line = none) (i : Nat) : f.moved i = f := by
  cases f with
  | mk kind line column message =>
      obtain rfl : line = none := h
      rfl

theorem Fault.moved_inLine (i n : Nat) (f : Fault) :
    (f.inLine n).moved i = (f.moved i).inLine (shift i n) := by
  cases f with
  | mk kind line column message => cases line <;> rfl

namespace Statement

/-- Is the statement a jump, conditional or not, to a line by its number? -/
def aimsAtNumber : Statement → Bool
  | goto (.line _) => true
  | branch _ (.line _) => true
  | _ => false

end Statement

namespace Line

/-- The line is blank, or it begins with a bar and has at least three. -/
def Inert (l : Line) : Prop :=
  AllBlank l.text.toList ∨
    (3 ≤ l.bars ∧ ∃ before rest, AllBlank before ∧ l.text.toList = before ++ bar :: rest)

theorem Inert.idle {l : Line} (h : l.Inert) : Idle l.text.toList := by
  rcases h with hblank | ⟨-, hbar⟩
  · exact Or.inl hblank
  · exact Or.inr hbar

theorem Inert.bars_ne {l : Line} (h : l.Inert) : l.bars ≠ 1 ∧ l.bars ≠ 2 := by
  rcases h with hblank | ⟨hmany, -⟩
  · have hnone : bar ∉ l.text.toList := by
      intro hbar
      have hfalse := hblank bar hbar
      revert hfalse
      decide
    have hzero : l.bars = 0 := List.count_eq_zero.mpr hnone
    omega
  · omega

/-- What a line stands for depends on its number only in the place of its fault. -/
theorem decode_shift (l : Line) (i number : Nat) :
    l.decode (shift i number) = (l.decode number).mapError (Fault.moved i) := by
  cases h : l.decode number with
  | error f =>
      obtain ⟨g, hraised, rfl, hall⟩ := decode_fault h
      rw [hall, Except.mapError, Fault.moved_inLine, Fault.moved_of_line_eq_none hraised.line_eq]
  | ok found =>
      have hother : l.decode (shift i number) = .ok found := by
        unfold decode at h ⊢
        split
        · next hskipped => rwa [if_pos hskipped] at h
        · next hskipped =>
            rw [if_neg hskipped] at h
            cases hphrase : Phrase.ofString? l.text with
            | none => simp [hphrase] at h
            | some p =>
                cases hstatement : p.statement with
                | error f => simp [hphrase, hstatement] at h
                | ok s => simpa [hphrase, hstatement] using h
      rw [hother]
      rfl

end Line

namespace Labels

/-- A line that declares nothing moves the declarations, and does no more. -/
theorem declaredAt_insertIdx {lines : List Line} {l : Line} {i : Nat} (hi : i ≤ lines.length)
    (hl : ∀ name, ¬ l.Declares name) (name : String) (address : Nat) :
    DeclaredAt (lines.insertIdx i l) name address ↔
      ∃ a, address = shift i a ∧ DeclaredAt lines name a := by
  constructor
  · rintro ⟨found, hfound, hdeclares⟩
    by_cases hne : address = i
    · rw [hne, getElem?_insertIdx_new l hi] at hfound
      exact absurd (Option.some.inj hfound ▸ hdeclares) (hl name)
    · obtain ⟨a, rfl⟩ := exists_shift_of_ne hne
      rw [getElem?_insertIdx_shift] at hfound
      exact ⟨a, rfl, found, hfound, hdeclares⟩
  · rintro ⟨a, rfl, found, hfound, hdeclares⟩
    refine ⟨found, ?_, hdeclares⟩
    rw [getElem?_insertIdx_shift]
    exact hfound

theorem Describes.get?_insertIdx {t t' : Labels} {lines : List Line} {l : Line} {i : Nat}
    (ht : t.Describes lines) (ht' : t'.Describes (lines.insertIdx i l)) (hi : i ≤ lines.length)
    (hl : ∀ name, ¬ l.Declares name) (name : String) :
    t'.get? name = (t.get? name).map (shift i) := by
  have hmoved := declaredAt_insertIdx hi hl name
  cases hget : t.get? name with
  | none =>
      rw [ht.get?_eq_none_iff] at hget
      rw [Option.map_none, ht'.get?_eq_none_iff]
      intro address haddress
      obtain ⟨a, -, ha⟩ := (hmoved address).mp haddress
      exact hget a ha
  | some a =>
      rw [ht.get?_iff] at hget
      rw [Option.map_some, ht'.get?_iff]
      refine ⟨(hmoved _).mpr ⟨a, rfl, hget.1⟩, ?_⟩
      intro address haddress
      obtain ⟨b, rfl, hb⟩ := (hmoved address).mp haddress
      exact shift_le_shift (hget.2 hb)

end Labels

namespace Program

/-- All jumps of the program are to labels. -/
def ByLabel (p : Program) : Prop :=
  ∀ (address : Nat) (s : Statement), p.statementAt address = .ok (some s) →
    s.aimsAtNumber = false

theorem byLabel_iff (p : Program) :
    p.ByLabel ↔ ∀ found ∈ p.code.toList, ∀ s, found = .ok (some s) → s.aimsAtNumber = false := by
  constructor
  · rintro h found hfound s rfl
    obtain ⟨address, haddress⟩ := List.mem_iff_getElem?.mp hfound
    refine h address s ?_
    rw [statementAt, ← Array.getElem?_toList, haddress]
    rfl
  · intro h address s hs
    rw [statementAt, ← Array.getElem?_toList] at hs
    cases hfound : p.code.toList[address]? with
    | none => simp [hfound] at hs
    | some found =>
        rw [hfound] at hs
        exact h found (List.mem_of_getElem? hfound) s hs

instance (found : Decoded) :
    Decidable (∀ s, found = .ok (some s) → s.aimsAtNumber = false) :=
  match found with
  | .error _ => isTrue fun _ h => by cases h
  | .ok none => isTrue fun _ h => by cases h
  | .ok (some s) =>
      decidable_of_iff (s.aimsAtNumber = false)
        ⟨fun hs _ h => by cases h; exact hs, fun h => h s rfl⟩

instance (p : Program) : Decidable p.ByLabel :=
  decidable_of_iff _ p.byLabel_iff.symm

/-- The second program is the first with a line put in that does nothing. -/
structure Widens (i : Nat) (p p' : Program) : Prop where
  le_size : i ≤ p.size
  size_eq : p'.size = p.size + 1
  statementAt_new : p'.statementAt i = .ok none
  statementAt_shift : ∀ a, p'.statementAt (shift i a) = (p.statementAt a).mapError (Fault.moved i)
  resolve_label : ∀ name, p'.resolve (.label name) = (p.resolve (.label name)).map (shift i)

theorem line?_of_ofLines {lines : List Line} {p : Program} (h : ofLines lines = .ok p)
    (address : Nat) : p.line? address = lines[address]? := by
  rw [line?, lines_of_ofLines h, List.getElem?_toArray]

/-- Putting in an inert line widens a program. -/
theorem widens_insertIdx {lines : List Line} {l : Line} {i : Nat} {p p' : Program}
    (hp : ofLines lines = .ok p) (hp' : ofLines (lines.insertIdx i l) = .ok p')
    (hi : i ≤ lines.length) (hl : l.Inert) : p.Widens i p' := by
  obtain ⟨hscan, hsize⟩ := labels_of_ofLines hp
  obtain ⟨hscan', hsize'⟩ := labels_of_ofLines hp'
  refine ⟨hsize ▸ hi, ?_, ?_, ?_, ?_⟩
  · rw [hsize', hsize, List.length_insertIdx, if_pos hi]
  · rw [statementAt_eq, line?_of_ofLines hp', getElem?_insertIdx_new l hi]
    exact (Line.decode_eq_none_iff l i).mpr hl.idle
  · intro a
    rw [statementAt_eq, statementAt_eq, line?_of_ofLines hp', line?_of_ofLines hp,
      getElem?_insertIdx_shift]
    cases lines[a]? with
    | none => rfl
    | some found => exact found.decode_shift i a
  · intro name
    have hget := (Labels.scan_spec hscan).1.get?_insertIdx (Labels.scan_spec hscan').1 hi
      (fun name hname => hl.bars_ne.2 hname.1) name
    rw [resolve, resolve, Labels.resolve, Labels.resolve, hget]
    cases p.labels.get? name <;> rfl

/-- Putting in an inert line keeps a program acceptable. -/
theorem ofLines_insertIdx {lines : List Line} {l : Line} {i : Nat} {p : Program}
    (hp : ofLines lines = .ok p) (hi : i ≤ lines.length) (hl : l.Inert) :
    ∃ p', ofLines (lines.insertIdx i l) = .ok p' := by
  have hlines := (ofLines_ok_iff lines).mp ⟨p, hp⟩
  refine (ofLines_ok_iff _).mpr fun found hfound => ?_
  rcases (List.mem_insertIdx hi).mp hfound with rfl | hold
  · exact hl.bars_ne.1
  · exact hlines found hold

end Program
end Fifo
