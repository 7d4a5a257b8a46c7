import Fifo.Proofs.Machine.Coherence
import Fifo.Proofs.Statement.Grammar

/-!
# Where faults happen

Every fault that ends a run is placed in the line that the machine is at, and it is of one of twelve
kinds.  Faults come from two sides.  A line that cannot be decoded has its fault placed when the
program is made; a statement that fails raises a fault without a place (`Memory.perform_fault`),
which the machine then puts into the current line.  `Stepped.fault_spec` says that the two places
agree, and `execute_fault_spec` says it of a slice.

The remaining faults are those of a machine that was interrupted or was refused a line.  That the
latter stands at a line is coherence.
-/

namespace Fifo
namespace Fault

/-- The fault has no place yet, and is of one of the given kinds. -/
structure Raised (kinds : List Kind) (f : Fault) : Prop where
  line_eq : f.line = none
  column_eq : f.column = none
  kind_mem : f.kind ∈ kinds

theorem raised_of {kinds : List Kind} {kind : Kind} (h : kind ∈ kinds) : (of kind).Raised kinds :=
  ⟨rfl, rfl, h⟩

theorem raised_because {kinds : List Kind} {kind : Kind} {message : String} (h : kind ∈ kinds) :
    (because kind message).Raised kinds :=
  ⟨rfl, rfl, h⟩

theorem Raised.inLine_line {kinds : List Kind} {f : Fault} (h : f.Raised kinds) (n : Nat) :
    (f.inLine n).line = some n := by
  simp [inLine, h.line_eq]

/-- The kinds of fault that a statement can raise when it is performed. -/
def Kind.ofStatements : List Kind :=
  [.invalidJumpTarget, .unresolvedJumpTarget, .nonIntegerReturnValue, .notEnoughArguments,
    .returnFromEmptyQueue, .operationMismatch, .divisionByZero]

/-- The kinds of fault of a line that cannot be decoded. -/
def Kind.ofLines : List Kind :=
  [.unknownInstruction, .invalidPush, .invalidPrint, .invalidRead]

end Fault

namespace Queue

variable {α : Type}

theorem first_fault {q : Queue α} {f : Fault} (h : q.first = .error f) : f = underflow := by
  unfold first at h
  split at h
  · cases h
  · exact (Except.error.inj h).symm

theorem firstTwo_fault {q : Queue α} {f : Fault} (h : q.firstTwo = .error f) : f = underflow := by
  unfold firstTwo at h
  split at h
  · cases h
  · exact (Except.error.inj h).symm

theorem underflow_raised : underflow.Raised Fault.Kind.ofStatements :=
  Fault.raised_of (by decide)

end Queue

theorem Operation.onIntegers_fault {op : Operation} {l r : Int64} {f : Fault}
    (h : op.onIntegers l r = .error f) : op ≠ .sum ∧ f = .of .divisionByZero := by
  cases op with
  | sum => cases h
  | difference => cases h
  | product => cases h
  | quotient =>
      simp only [onIntegers] at h
      split at h
      · exact ⟨by decide, (Except.error.inj h).symm⟩
      · cases h
  | remainder =>
      simp only [onIntegers] at h
      split at h
      · exact ⟨by decide, (Except.error.inj h).symm⟩
      · cases h

theorem Operation.onTexts_fault {op : Operation} {l r : Value} {f : Fault}
    (h : op.onTexts l r = .error f) : op ≠ .sum ∧ f = .of .operationMismatch := by
  cases op with
  | sum => cases h
  | difference => exact ⟨by decide, (Except.error.inj h).symm⟩
  | product => exact ⟨by decide, (Except.error.inj h).symm⟩
  | quotient => exact ⟨by decide, (Except.error.inj h).symm⟩
  | remainder => exact ⟨by decide, (Except.error.inj h).symm⟩

/-- An operation that fails is not the sum, and it fails in one of two ways. -/
theorem Operation.apply_fault_cases {op : Operation} {a b : Value} {f : Fault}
    (h : op.apply a b = .error f) :
    op ≠ .sum ∧ (f = .of .operationMismatch ∨ f = .of .divisionByZero) := by
  unfold apply at h
  split at h
  · next l r =>
      cases hresult : op.onIntegers l r with
      | ok n => simp [hresult, Except.map] at h
      | error g =>
          rw [hresult] at h
          obtain rfl : g = f := Except.error.inj h
          obtain ⟨hop, hg⟩ := onIntegers_fault hresult
          exact ⟨hop, Or.inr hg⟩
  · obtain ⟨hop, hf⟩ := onTexts_fault h
    exact ⟨hop, Or.inl hf⟩

theorem Operation.apply_fault {op : Operation} {a b : Value} {f : Fault}
    (h : op.apply a b = .error f) : f.Raised Fault.Kind.ofStatements := by
  obtain ⟨-, rfl | rfl⟩ := apply_fault_cases h
  · exact Fault.raised_of (by decide)
  · exact Fault.raised_of (by decide)

theorem Value.toInteger_fault {v : Value} {f : Fault} (h : v.toInteger = .error f) :
    f = .of .operationMismatch := by
  cases v with
  | integer n => cases h
  | text s => exact (Except.error.inj h).symm

theorem Relation.test_fault {relation : Relation} {a b : Value} {f : Fault}
    (h : relation.test a b = .error f) : f.Raised Fault.Kind.ofStatements := by
  have hmismatch : f = .of .operationMismatch := by
    unfold test at h
    split at h
    · cases h
    · next g ha =>
        obtain rfl := Except.error.inj h
        exact Value.toInteger_fault ha
    · next g hb _ =>
        obtain rfl := Except.error.inj h
        exact Value.toInteger_fault hb
  rw [hmismatch]
  exact Fault.raised_of (by decide)

theorem Program.resolve_fault {p : Program} {target : Target} {f : Fault}
    (h : p.resolve target = .error f) : f.Raised Fault.Kind.ofStatements := by
  unfold resolve Labels.resolve at h
  cases target with
  | line n =>
      simp only at h
      split at h
      · cases h
      · rw [← Except.error.inj h]
        exact Fault.raised_because (by decide)
  | label name =>
      simp only at h
      split at h
      · cases h
      · rw [← Except.error.inj h]
        exact Fault.raised_because (by decide)

namespace Memory

/-- Arithmetic fails because there are no two operands, or because they do not fit.  It makes no
difference to this what becomes of the operands. -/
theorem combine_fault_cases {m : Memory} {op : Operation} {operands : Operands} {f : Fault}
    (h : (m.act (.combine op operands)).2 = .error f) :
    f = Queue.underflow ∨ ∃ a b, op.apply a b = .error f := by
  rcases m.combine_result op operands with hresult | ⟨a, b, hresult⟩
  · rw [hresult] at h
    exact Or.inl (Except.error.inj h).symm
  · rw [hresult] at h
    refine Or.inr ⟨a, b, ?_⟩
    cases hvalue : op.apply a b with
    | error g =>
        rw [hvalue] at h
        exact congrArg _ (Except.error.inj h)
    | ok v => simp [hvalue, Except.map] at h

theorem combine_fault {m : Memory} {op : Operation} {operands : Operands} {f : Fault}
    (h : (m.act (.combine op operands)).2 = .error f) : f.Raised Fault.Kind.ofStatements := by
  rcases combine_fault_cases h with rfl | ⟨a, b, hvalue⟩
  · exact Queue.underflow_raised
  · exact Operation.apply_fault hvalue

theorem act_fault {m : Memory} {a : Action} {f : Fault} (h : (m.act a).2 = .error f) :
    f.Raised Fault.Kind.ofStatements := by
  cases a with
  | combine op operands => exact combine_fault h
  | nothing => cases h
  | peek ending =>
      simp only [act, peek] at h
      cases hfirst : m.queue.first with
      | error g =>
          simp only [hfirst, Except.error.injEq] at h
          rw [← h, Queue.first_fault hfirst]
          exact Queue.underflow_raised
      | ok v => simp [hfirst] at h
  | pop ending =>
      simp only [act, pop] at h
      rcases m.queue.pop_cases with ⟨-, hpop⟩ | ⟨v, rest, -, hpop⟩
      · simp only [hpop, Except.error.injEq] at h
        rw [← h]
        exact Queue.underflow_raised
      · simp [hpop] at h
  | popAll ending => cases h
  | display => cases h
  | shuffle => cases h
  | sort direction => cases h
  | exit =>
      simp only [act, exit] at h
      split at h
      · rw [← Except.error.inj h]
        exact Fault.raised_of (by decide)
      · cases h
      · rw [← Except.error.inj h]
        exact Fault.raised_of (by decide)

theorem branch_fault {m : Memory} {p : Program} {relation : Relation} {target : Target} {f : Fault}
    (h : (m.branch p relation target).2 = .error f) : f.Raised Fault.Kind.ofStatements := by
  simp only [branch] at h
  cases hres : p.resolve target with
  | error g =>
      simp only [hres, Except.error.injEq] at h
      exact h ▸ Program.resolve_fault hres
  | ok address =>
      cases hfirst : m.queue.firstTwo with
      | error g =>
          simp only [hres, hfirst, Except.error.injEq] at h
          rw [← h, Queue.firstTwo_fault hfirst]
          exact Queue.underflow_raised
      | ok seen =>
          cases htest : relation.test seen.1 seen.2 with
          | error g =>
              simp only [hres, hfirst, htest, Except.map, Except.error.injEq] at h
              exact h ▸ Relation.test_fault htest
          | ok holds => simp [hres, hfirst, htest, Except.map] at h

/-- A statement that fails raises a fault without a place: placing it is left to the machine. -/
theorem perform_fault {m : Memory} {p : Program} {s : Statement} {f : Fault}
    (h : (m.perform p s).2 = .error f) : f.Raised Fault.Kind.ofStatements := by
  cases s with
  | act a => exact act_fault h
  | goto target =>
      simp only [perform, goto] at h
      cases hres : p.resolve target with
      | error g =>
          simp only [hres, Except.map, Except.error.injEq] at h
          exact h ▸ Program.resolve_fault hres
      | ok address => simp [hres, Except.map] at h
  | branch relation target => exact branch_fault h
  | push literal => cases h
  | print literal => cases h
  | read prompt => cases h

end Memory

namespace Line

/-- The fault of a line that cannot be decoded is raised without a place, and then placed in the
line by its number. -/
theorem decode_fault {l : Line} {number : Nat} {f : Fault} (h : l.decode number = .error f) :
    ∃ g : Fault, g.Raised Fault.Kind.ofLines ∧ f = g.inLine number ∧
      ∀ k, l.decode k = .error (g.inLine k) := by
  have hidle : ¬ Idle l.text.toList := by
    intro hidle
    rw [(decode_eq_none_iff l number).mpr hidle] at h
    cases h
  have hproper := Layout.proper_ofText (not_allBlank_of_not_idle hidle)
  have hdecode := decode_of_layout hidle hproper (Layout.text_ofText _)
  rw [hdecode number, Phrase.decode_eq_error_iff] at h
  obtain ⟨g, hrefused, hf⟩ := h
  obtain ⟨hline, hcolumn, hkind⟩ := hrefused.unplaced
  refine ⟨g, ⟨hline, hcolumn, hkind⟩, hf, fun k => ?_⟩
  rw [hdecode k, Phrase.decode_eq_error_iff]
  exact ⟨g, hrefused, rfl⟩

end Line

theorem Program.statementAt_fault {p : Program} {address : Nat} {f : Fault}
    (h : p.statementAt address = .error f) :
    ∃ g : Fault, g.Raised Fault.Kind.ofLines ∧ f = g.inLine address := by
  rw [statementAt_eq] at h
  cases hline : p.line? address with
  | none => simp [hline] at h
  | some l =>
      rw [hline] at h
      obtain ⟨g, hraised, hf, -⟩ := Line.decode_fault h
      exact ⟨g, hraised, hf⟩

namespace Machine

/-- The kinds of fault that a run can end in. -/
def faultKinds : List Fault.Kind :=
  [.invalidJumpTarget, .unresolvedJumpTarget, .nonIntegerReturnValue, .notEnoughArguments,
    .returnFromEmptyQueue, .operationMismatch, .invalidPrint, .invalidRead, .invalidPush,
    .unknownInstruction, .divisionByZero, .interrupted]

/-- The fault is placed in the line that the machine is at, and is of a kind that runs end in.  The
line exists unless the machine was interrupted, which may happen behind the last line. -/
structure Blames (m : Machine) (f : Fault) : Prop where
  line_eq : f.line = some m.pc
  column_eq : f.column = none
  kind_mem : f.kind ∈ faultKinds
  pc_lt : f.kind ≠ .interrupted → m.pc < m.program.size

theorem blames_of_raised {m : Machine} {kinds : List Fault.Kind} {f : Fault} (hf : f.Raised kinds)
    (hkinds : ∀ kind ∈ kinds, kind ∈ faultKinds) (hpc : m.pc < m.program.size) :
    m.Blames (f.inLine m.pc) where
  line_eq := hf.inLine_line m.pc
  column_eq := hf.column_eq
  kind_mem := hkinds f.kind hf.kind_mem
  pc_lt := fun _ => hpc

/-- A step that fails blames the line that it was at, and stays there. -/
theorem Stepped.fault_spec {m m' : Machine} {f : Fault} (h : Stepped m m' (some (.fault f))) :
    m.Blames f ∧ m'.pc = m.pc ∧ m'.program = m.program := by
  cases h with
  | undecoded g hpc hline =>
      obtain ⟨g', hraised, rfl⟩ := Program.statementAt_fault hline
      -- The line was placed when it was decoded, and the first place stays.
      rw [Fault.inLine_inLine]
      exact ⟨blames_of_raised hraised (by decide) hpc, rfl, rfl⟩
  | failed s memory g hpc hline hdone =>
      have hraised := Memory.perform_fault (congrArg Prod.snd hdone)
      exact ⟨blames_of_raised hraised (by decide) hpc, rfl, rfl⟩

/-- The machine that a slice fails at, just before it fails: a step of it fails, or it was stopped
by its user or its host and performs no step. -/
inductive FailsAt (budget : Nat) (m m' : Machine) (f : Fault) : Machine → Prop
  | stopped (hphase : m.phase = .inputClosed ∨ m.phase = .interrupted) : FailsAt budget m m' f m
  | step (start : Machine) (done : Nat) (hphase : m.phase = .running) (hbudget : done < budget)
      (hbefore : steps done m = (start, none)) (hstep : start.step = (m', some (.fault f))) :
      FailsAt budget m m' f start

/-- A slice that fails blames the line that it fails at, and the machine stays there. -/
theorem execute_fault_spec {budget : Nat} {m m' : Machine} {f : Fault} (hm : m.Coherent)
    (h : m.execute budget = (m', .fault f)) :
    m'.Blames f ∧ ∃ start, FailsAt budget m m' f start ∧ start.pc = m'.pc ∧
      start.program = m'.program := by
  cases sliced_of_execute h with
  | refused hphase =>
      -- A machine that was refused a line is at the question that asked for it.
      obtain ⟨argument, l, hpc, -, -⟩ := hm.inputClosed hphase
      have hkind : Fault.Kind.invalidRead ∈ faultKinds := by decide
      exact ⟨⟨rfl, rfl, hkind, fun _ => hpc⟩, m, .stopped (Or.inl hphase), rfl, rfl⟩
  | interrupted hphase =>
      have hkind : Fault.Kind.interrupted ∈ faultKinds := by decide
      exact ⟨⟨rfl, rfl, hkind, fun hne => absurd rfl hne⟩, m, .stopped (Or.inr hphase), rfl, rfl⟩
  | ended start m' event done hphase hlt hbefore hstep =>
      obtain ⟨hblames, hpc, hprogram⟩ := (stepped_of_step hstep).fault_spec
      refine ⟨⟨?_, hblames.column_eq, hblames.kind_mem, ?_⟩, start,
        .step start done hphase hlt hbefore hstep, hpc.symm, hprogram.symm⟩
      · rw [hpc]
        exact hblames.line_eq
      · rw [hpc, hprogram]
        exact hblames.pc_lt

/-- **Faults name the line they happened in.**  After every history of calls from a fresh machine, a
slice that ends in a fault leaves the machine at the line that the fault names; that is where the
machine was when it began to fail, be it with a step or because it was interrupted or refused a
line.  The fault names no column, it is of one of twelve kinds, and the line exists unless the
machine was interrupted.  The kinds that belong to loading, to comparing by sign and to the host do
not occur. -/
theorem fault_names_line (clock : Random.Clock) (calls : List Call) (budget : Nat) (m' : Machine)
    (f : Fault) (h : ((fresh clock).after calls).execute budget = (m', .fault f)) :
    (∃ start, FailsAt budget ((fresh clock).after calls) m' f start ∧ start.pc = m'.pc ∧
      f.line = some start.pc) ∧
    f.line = some m'.pc ∧
    f.column = none ∧
    f.kind ∈ ([.invalidJumpTarget, .unresolvedJumpTarget, .nonIntegerReturnValue,
      .notEnoughArguments, .returnFromEmptyQueue, .operationMismatch, .invalidPrint, .invalidRead,
      .invalidPush, .unknownInstruction, .divisionByZero, .interrupted] : List Fault.Kind) ∧
    (f.kind ≠ .interrupted → m'.pc < m'.program.size) ∧
    f.kind ∉ ([.singleDelimiter, .unspecifiedComparison, .internalError, .invalidFileExtension,
      .fileNotFound] : List Fault.Kind) := by
  obtain ⟨hblames, start, hfails, hpc, -⟩ :=
    execute_fault_spec ((coherent_fresh clock).after calls) h
  have hother : ∀ kind ∈ faultKinds, kind ∉ ([.singleDelimiter, .unspecifiedComparison,
      .internalError, .invalidFileExtension, .fileNotFound] : List Fault.Kind) := by
    decide
  refine ⟨⟨start, hfails, hpc, ?_⟩, hblames.line_eq, hblames.column_eq, hblames.kind_mem,
    hblames.pc_lt, hother f.kind hblames.kind_mem⟩
  rw [hpc]
  exact hblames.line_eq

/-- A program that divides 1 by the number it asks for is run, and answered with 0. -/
def dividing : List Call :=
  [.load ["PUSH 1", "READ", "DIV"], .execute 9, .reply "0"]

theorem fault_names_line_division :
    ((fresh (.ticking 0)).after dividing).pc = 2 ∧
      ∃ m' f, ((fresh (.ticking 0)).after dividing).execute 5 = (m', .fault f) ∧
        f.kind = .divisionByZero ∧ m'.pc = 2 ∧ f.line = some m'.pc := by
  refine ⟨by decide +kernel, _, ((Fault.of .divisionByZero).inLine 2), rfl, rfl, rfl, ?_⟩
  exact (fault_names_line (.ticking 0) dividing 5 _ _ rfl).2.1

end Machine
end Fifo
