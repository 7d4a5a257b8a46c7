import Fifo.Proofs.Machine.Faults

/-!
# What a failure leaves behind

A step that fails stops the machine where it is.  The program, the place in it and the supply of
random words are what they were, and so is the queue, except for operands that had been taken before
they turned out not to fit.  `Statement.spent` says which statements take operands in this way, and
how many.  Nothing is put into the queue and nothing in it is moved: a statement puts its result
there behind the last point at which it can fail.

`Memory.perform_spends` says this of a statement, `Stepped.aborts` of a step and `execute_aborts` of
a slice.
-/

namespace Fifo

/-- The number of values that a statement has taken from the front when it fails with a fault of
the given kind.  Arithmetic that consumes its operands takes both of them first, and only adding
fits all operands; the statement that ends the program takes its value before it looks at it. -/
def Statement.spent (kind : Fault.Kind) : Statement → Nat
  | .act (.combine op .consumed) =>
      if op ≠ .sum ∧ (kind = .operationMismatch ∨ kind = .divisionByZero) then 2 else 0
  | .act .exit => if kind = .nonIntegerReturnValue then 1 else 0
  | _ => 0

namespace Memory

/-- The second memory is the first one after a number of values have been taken from the front. -/
structure Spends (m : Memory) (count : Nat) (m' : Memory) : Prop where
  supply_eq : m'.supply = m.supply
  queue_eq : ∃ taken : List Value, taken.length = count ∧
    m.queue.toList = taken ++ m'.queue.toList
  /-- Where nothing was taken, not even the way the queue is kept has changed. -/
  eq_of_zero : count = 0 → m' = m

theorem spends_zero (m : Memory) : m.Spends 0 m :=
  ⟨rfl, ⟨[], rfl, rfl⟩, fun _ => rfl⟩

theorem combine_spends {m m' : Memory} {op : Operation} {f : Fault}
    (h : m.combine op = (m', .error f)) :
    m.Spends ((Statement.act (.combine op .consumed)).spent f.kind) m' := by
  rcases m.combine_cases op with ⟨-, hdone, -⟩ | ⟨a, b, rest, hlist, ⟨g, hvalue, hdone, -⟩ |
    ⟨v, -, hdone, -⟩⟩
  · obtain ⟨rfl, hfault⟩ := Prod.mk.inj (hdone.symm.trans h)
    obtain rfl := Except.error.inj hfault
    have hspent : (Statement.act (.combine op .consumed)).spent Queue.underflow.kind = 0 := by
      simp [Statement.spent, Queue.underflow, Fault.of]
    rw [hspent]
    exact spends_zero m
  · obtain ⟨rfl, hfault⟩ := Prod.mk.inj (hdone.symm.trans h)
    obtain rfl := Except.error.inj hfault
    obtain ⟨hop, hkind⟩ := Operation.apply_fault_cases hvalue
    have hspent : (Statement.act (.combine op .consumed)).spent g.kind = 2 := by
      rcases hkind with rfl | rfl <;> simp [Statement.spent, hop, Fault.of]
    rw [hspent]
    exact ⟨rfl, ⟨[a, b], rfl, hlist⟩, by simp⟩
  · cases hdone.symm.trans h

theorem combineKeeping_kept {m m' : Memory} {op : Operation} {f : Fault}
    (h : m.combineKeeping op = (m', .error f)) : m' = m := by
  rcases m.combine_cases op with ⟨-, -, hdone⟩ | ⟨a, b, rest, -, ⟨g, -, -, hdone⟩ |
    ⟨v, -, -, hdone⟩⟩
  · exact (congrArg Prod.fst (hdone.symm.trans h)).symm
  · exact (congrArg Prod.fst (hdone.symm.trans h)).symm
  · cases hdone.symm.trans h

theorem exit_spends {m m' : Memory} {f : Fault} (h : m.exit = (m', .error f)) :
    m.Spends ((Statement.act .exit).spent f.kind) m' := by
  unfold exit at h
  split at h
  · next g rest hpop =>
      -- There was no value to take.
      obtain ⟨-, -, rfl⟩ := Queue.pop_of_error hpop
      simp only [Prod.mk.injEq, Except.error.injEq] at h
      obtain ⟨rfl, rfl⟩ := h
      exact spends_zero m
  · cases h
  · next s rest hpop =>
      simp only [Prod.mk.injEq, Except.error.injEq] at h
      obtain ⟨rfl, rfl⟩ := h
      have hspent : (Statement.act .exit).spent (Fault.of .nonIntegerReturnValue).kind = 1 := rfl
      rw [hspent]
      exact ⟨rfl, ⟨[.text s], rfl, Queue.toList_of_pop hpop⟩, by simp⟩

/-- An action that fails has spent its operands or nothing. -/
theorem act_spends {m m' : Memory} {a : Action} {f : Fault} (h : m.act a = (m', .error f)) :
    m.Spends ((Statement.act a).spent f.kind) m' := by
  cases a with
  | combine op operands =>
      cases operands with
      | consumed => exact combine_spends h
      | kept =>
          rw [combineKeeping_kept h]
          exact spends_zero m
  | nothing => cases h
  | peek ending =>
      simp only [act, peek] at h
      cases hfirst : m.queue.first with
      | ok v => simp [hfirst] at h
      | error g =>
          simp only [hfirst, Prod.mk.injEq] at h
          rw [← h.1]
          exact spends_zero m
  | pop ending =>
      simp only [act, pop] at h
      rcases m.queue.pop_cases with ⟨-, hpop⟩ | ⟨v, rest, -, hpop⟩
      · simp only [hpop, Prod.mk.injEq] at h
        rw [← h.1]
        exact spends_zero m
      · simp [hpop] at h
  | popAll ending => cases h
  | display => cases h
  | shuffle => cases h
  | sort direction => cases h
  | exit => exact exit_spends h

theorem branch_kept {m m' : Memory} {p : Program} {relation : Relation} {target : Target}
    {result : Except Fault Outcome} (h : m.branch p relation target = (m', result)) : m' = m := by
  unfold branch at h
  split at h
  · exact (congrArg Prod.fst h).symm
  · split at h
    · exact (congrArg Prod.fst h).symm
    · exact (congrArg Prod.fst h).symm

/-- A statement that fails has spent its operands or nothing. -/
theorem perform_spends {m m' : Memory} {p : Program} {s : Statement} {f : Fault}
    (h : m.perform p s = (m', .error f)) : m.Spends (s.spent f.kind) m' := by
  cases s with
  | act a => exact act_spends h
  | goto target =>
      obtain rfl : m = m' := congrArg Prod.fst h
      exact spends_zero m
  | branch relation target =>
      rw [branch_kept h]
      exact spends_zero m
  | push literal => cases h
  | print literal => cases h
  | read prompt => cases h

/-- A sum fails only for want of operands, whatever becomes of them. -/
theorem sum_fault {m : Memory} {operands : Operands} {f : Fault}
    (h : (m.act (.combine .sum operands)).2 = .error f) : f = Queue.underflow := by
  rcases combine_fault_cases h with hunderflow | ⟨a, b, hvalue⟩
  · exact hunderflow
  · exact absurd rfl (Operation.apply_fault_cases hvalue).1

end Memory

namespace Machine

/-- The number of values that the current line has taken from the front when it fails with a fault
of the given kind. -/
def spent (m : Machine) (kind : Fault.Kind) : Nat :=
  match m.program.statementAt m.pc with
  | .ok (some s) => s.spent kind
  | _ => 0

/-- The second machine is what a fault leaves of the first: it has stopped where it was, and has
lost the values that its line had taken. -/
structure Aborts (m : Machine) (f : Fault) (m' : Machine) : Prop where
  program_eq : m'.program = m.program
  pc_eq : m'.pc = m.pc
  supply_eq : m'.supply = m.supply
  phase_eq : m'.phase = .stopped
  queue_eq : ∃ taken : List Value, taken.length = m.spent f.kind ∧
    m.queue.toList = taken ++ m'.queue.toList
  queue_kept : m.spent f.kind = 0 → m'.queue = m.queue

theorem aborts_of_spends {m : Machine} {memory : Memory} {f : Fault}
    (h : m.memory.Spends (m.spent f.kind) memory) :
    m.Aborts f { m with memory := memory, phase := .stopped } where
  program_eq := rfl
  pc_eq := rfl
  supply_eq := h.supply_eq
  phase_eq := rfl
  queue_eq := h.queue_eq
  queue_kept := fun hnone => congrArg Memory.queue (h.eq_of_zero hnone)

/-- A fault that no statement raises has cost nothing. -/
theorem aborts_of_spent_eq_zero {m : Machine} {f : Fault} (h : m.spent f.kind = 0) :
    m.Aborts f { m with phase := .stopped } := by
  apply aborts_of_spends
  rw [h]
  exact Memory.spends_zero m.memory

theorem spent_eq_zero {m : Machine} {kind : Fault.Kind} (hmismatch : kind ≠ .operationMismatch)
    (hzero : kind ≠ .divisionByZero) (hreturn : kind ≠ .nonIntegerReturnValue) :
    m.spent kind = 0 := by
  unfold spent
  split
  · unfold Statement.spent
    split <;> simp [hmismatch, hzero, hreturn]
  · rfl

theorem Stepped.aborts {m m' : Machine} {f : Fault} (h : Stepped m m' (some (.fault f))) :
    m.Aborts f m' := by
  cases h with
  | undecoded g hpc hline =>
      have hspent : m.spent g.kind = 0 := by rw [spent, hline]
      exact aborts_of_spent_eq_zero hspent
  | failed s memory g hpc hline hdone =>
      -- Placing a fault in a line does not change its kind.
      have hspent : m.spent (g.inLine m.pc).kind = s.spent g.kind := by
        rw [spent, hline]
        rfl
      apply aborts_of_spends
      rw [hspent]
      exact Memory.perform_spends hdone

theorem Stepped.fault_of_statement {m m' : Machine} {f : Fault} {s : Statement}
    (h : Stepped m m' (some (.fault f)))
    (hstatement : m.program.statementAt m.pc = .ok (some s)) :
    ∃ g, (m.memory.perform m.program s).2 = .error g ∧ f = g.inLine m.pc := by
  cases h with
  | undecoded g hpc hline =>
      rw [hstatement] at hline
      cases hline
  | failed found memory g hpc hline hdone =>
      rw [hstatement] at hline
      cases hline
      exact ⟨g, congrArg Prod.snd hdone, rfl⟩

/-- A slice that fails leaves what its failing step leaves, and everything if it performs no step.
-/
theorem execute_aborts {budget : Nat} {m m' : Machine} {f : Fault}
    (h : m.execute budget = (m', .fault f)) :
    ∃ start, FailsAt budget m m' f start ∧ start.Aborts f m' := by
  cases sliced_of_execute h with
  | refused hphase =>
      have hspent : m.spent .invalidRead = 0 := spent_eq_zero (by decide) (by decide) (by decide)
      exact ⟨m, .stopped (Or.inl hphase), aborts_of_spent_eq_zero hspent⟩
  | interrupted hphase =>
      have hspent : m.spent .interrupted = 0 := spent_eq_zero (by decide) (by decide) (by decide)
      exact ⟨m, .stopped (Or.inr hphase), aborts_of_spent_eq_zero hspent⟩
  | ended start m' event done hphase hlt hbefore hstep =>
      exact ⟨start, .step start done hphase hlt hbefore hstep, (stepped_of_step hstep).aborts⟩

/-- **A failure costs only the operands that it has taken.**  A step that fails leaves the program,
the place in it and the supply of random words as they were, and the machine has stopped.  The queue
has lost the values that the line had taken from its front: two for arithmetic that consumes
operands which do not fit, one for an end of the program that is no integer, and none for all other
failures.  Otherwise it is what it was.  In particular, arithmetic that keeps its operands and
conditional jumps leave the queue alone, and adding fails only for want of operands.  A slice that
fails does this to the machine that it fails at. -/
theorem failure_costs_operands :
    (∀ (m m' : Machine) (f : Fault), m.step = (m', some (.fault f)) →
      m.Aborts f m' ∧
      (∀ op, m.program.statementAt m.pc = .ok (some (.act (.combine op .kept))) →
        m'.queue = m.queue) ∧
      (∀ relation target, m.program.statementAt m.pc = .ok (some (.branch relation target)) →
        m'.queue = m.queue) ∧
      ∀ operands, m.program.statementAt m.pc = .ok (some (.act (.combine .sum operands))) →
        f.kind = .notEnoughArguments ∧ m'.queue = m.queue) ∧
    ∀ (budget : Nat) (m m' : Machine) (f : Fault), m.execute budget = (m', .fault f) →
      ∃ start, FailsAt budget m m' f start ∧ start.Aborts f m' := by
  refine ⟨fun m m' f h => ?_, fun budget m m' f => execute_aborts⟩
  have hstepped := stepped_of_step h
  have haborts := hstepped.aborts
  refine ⟨haborts, fun op hline => ?_, fun relation target hline => ?_, fun operands hline => ?_⟩
  · exact haborts.queue_kept (by rw [spent, hline]; rfl)
  · exact haborts.queue_kept (by rw [spent, hline]; rfl)
  · obtain ⟨g, hfault, rfl⟩ := hstepped.fault_of_statement hline
    obtain rfl := Memory.sum_fault hfault
    refine ⟨rfl, haborts.queue_kept ?_⟩
    rw [spent, hline]
    cases operands <;> rfl

/-- A program that subtracts a text from a number, with another number behind the two. -/
def atMismatch : Machine :=
  (fresh (.ticking 0)).after [.load ["PUSH 1", "PUSH \"a\"", "PUSH 3", "SUB"], .execute 3]

theorem failure_costs_operands_mismatch :
    atMismatch.queue.toList = [.integer 1, .text "a", .integer 3] ∧
      ∃ m' f, atMismatch.step = (m', some (.fault f)) ∧ f.kind = .operationMismatch ∧
        m'.queue.toList = [.integer 3] ∧ atMismatch.Aborts f m' ∧
        ∃ start, FailsAt 8 atMismatch m' f start ∧ start.Aborts f m' := by
  have hfails := failure_costs_operands
  refine ⟨by decide +kernel, _, (Fault.of .operationMismatch).inLine 3, rfl, rfl, by decide +kernel,
    (hfails.1 atMismatch _ _ rfl).1, hfails.2 8 atMismatch _ _ rfl⟩

end Machine
end Fifo
