import Fifo.Program.Labels
import Fifo.Statement.Decode

/-!
# Programs

The lines of a program with the labels they declare. Each line is decoded once, when the program is
made; a line that cannot be decoded is a fault only when it is reached, so its fault is kept in
place of a statement. The lines determine all else, so two programs with the same lines are the same
program (`Program.eq_of_lines_eq`).
-/

namespace Fifo

/-- What stands in a line: a statement, nothing, or the fault of reaching it. -/
abbrev Decoded := Except Fault (Option Statement)

/-- Lines, the labels they declare, and what stands in each of them. -/
structure Program where
  lines : Array Line
  labels : Labels
  code : Array Decoded
  labels_eq : Labels.scan lines.toList = .ok labels
  code_eq : code = lines.mapIdx Line.decode

namespace Program

def empty : Program :=
  ⟨#[], .empty, #[], rfl, rfl⟩

/-- The program with the given lines, unless the pass over its labels fails. -/
def ofLines (lines : List Line) : Except Fault Program :=
  match h : Labels.scan lines with
  | .ok labels => .ok ⟨lines.toArray, labels, lines.toArray.mapIdx Line.decode, h, rfl⟩
  | .error f => .error f

/-- The program with the given source text, line by line. -/
def ofSource (source : List String) : Except Fault Program :=
  ofLines (source.map Line.ofString)

def size (p : Program) : Nat :=
  p.lines.size

def line? (p : Program) (address : Nat) : Option Line :=
  p.lines[address]?

/-- What stands at an address; nothing does behind the last line. -/
def statementAt (p : Program) (address : Nat) : Decoded :=
  p.code[address]?.getD (.ok none)

/-- The line that a jump goes to. -/
def resolve (p : Program) (target : Target) : Except Fault Nat :=
  p.labels.resolve p.size target

instance : Inhabited Program := ⟨empty⟩

/-- The lines of a program determine it. -/
theorem eq_of_lines_eq {p q : Program} (h : p.lines = q.lines) : p = q := by
  obtain ⟨lines, labels, code, labels_eq, code_eq⟩ := p
  obtain ⟨lines', labels', code', labels_eq', code_eq'⟩ := q
  subst h code_eq code_eq'
  have hlabels : labels = labels' := Except.ok.inj (labels_eq.symm.trans labels_eq')
  subst hlabels
  rfl

/-- Making a program from lines fails with the fault of its label pass, and with no other. -/
theorem ofLines_eq_error_iff (lines : List Line) (f : Fault) :
    ofLines lines = .error f ↔ Labels.scan lines = .error f := by
  unfold ofLines
  split <;> simp_all

theorem lines_of_ofLines {lines : List Line} {p : Program} (h : ofLines lines = .ok p) :
    p.lines = lines.toArray := by
  unfold ofLines at h
  split at h
  · rw [← Except.ok.inj h]
  · cases h

/-- What stands at an address is what its line decodes to. -/
theorem statementAt_eq (p : Program) (address : Nat) :
    p.statementAt address = match p.line? address with
      | some l => l.decode address
      | none => .ok none := by
  rw [statementAt, line?, p.code_eq, Array.getElem?_mapIdx]
  cases p.lines[address]? <;> rfl

end Program
end Fifo
