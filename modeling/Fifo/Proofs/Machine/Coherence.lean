import Fifo.Proofs.Machine.History
import Fifo.Proofs.Machine.Outcome
import Fifo.Proofs.Machine.Step
import Fifo.Proofs.Program.Addresses

/-!
# Coherence

Whatever a host has done with a machine, the machine knows where it is: its next line exists, or is
the end of the program; its labels stand for lines that exist; and if it waits for a line, or will
get none, it is at the question that asked for it.

`Machine.Coherent` is the invariant.  `Coherent.stepped` says that a step preserves it,
`Coherent.steps` that a slice does, `Coherent.call` that every call of the host does, and
`Coherent.after` that a history of calls does.
-/

namespace Fifo
namespace Machine

/-- The machine is at a line that asks for a line, with the given argument. -/
def AtQuestion (m : Machine) (argument : Option Value) : Prop :=
  ∃ l, m.pc < m.program.size ∧ m.program.line? m.pc = some l ∧
    l.decode m.pc = .ok (some (.read argument))

/-- The machine knows where it is. -/
structure Coherent (m : Machine) : Prop where
  /-- The next line exists, or there is none left. -/
  pc_le : m.pc ≤ m.program.size
  /-- Labels stand for lines. -/
  label_lt : ∀ e ∈ m.program.labels.entries, e.2 < m.program.size
  /-- A machine that waits is at a question, and its prompt is the argument of that. -/
  waiting : ∀ prompt, m.phase = .waiting prompt →
    ∃ argument, m.AtQuestion argument ∧ prompt = Memory.promptOf argument
  /-- A machine that was refused a line is at a question. -/
  inputClosed : m.phase = .inputClosed → ∃ argument, m.AtQuestion argument

theorem atQuestion_of_statementAt {m : Machine} {argument : Option Value}
    (hpc : m.pc < m.program.size)
    (hline : m.program.statementAt m.pc = .ok (some (.read argument))) :
    m.AtQuestion argument := by
  rw [Program.statementAt_eq] at hline
  cases hfound : m.program.line? m.pc with
  | none => simp [hfound] at hline
  | some l =>
      rw [hfound] at hline
      exact ⟨l, hpc, hfound, hline⟩

/-- A machine that neither waits nor was refused a line only has to be inside its program. -/
theorem coherent_of_phase {m : Machine} (hpc : m.pc ≤ m.program.size)
    (hwaiting : ∀ prompt, m.phase ≠ .waiting prompt) (hclosed : m.phase ≠ .inputClosed) :
    m.Coherent where
  pc_le := hpc
  label_lt := fun _ he => m.program.label_lt_size he
  waiting := fun prompt h => absurd h (hwaiting prompt)
  inputClosed := fun h => absurd h hclosed

theorem coherent_fresh (clock : Random.Clock) : (fresh clock).Coherent :=
  coherent_of_phase (Nat.le_refl 0) (by simp [fresh]) (by simp [fresh])

/-- A machine that stops where it is stays coherent, whatever becomes of its memory. -/
theorem Coherent.stop {m : Machine} (hm : m.Coherent) (memory : Memory) :
    Coherent { m with memory := memory, phase := .stopped } :=
  coherent_of_phase hm.pc_le (by simp) (by simp)

/-- A step of a running machine preserves coherence.  Jumps are what needs the labels: every other
step moves by at most one line, and only from a line that exists. -/
theorem Coherent.stepped {m m' : Machine} {event : Option Event} (hm : m.Coherent)
    (hphase : m.phase = .running) (hstep : Stepped m m' event) : m'.Coherent := by
  cases hstep with
  | ended hend => exact hm.stop m.memory
  | skipped hpc hline => exact coherent_of_phase hpc (by simp [hphase]) (by simp [hphase])
  | undecoded f hpc hline => exact hm.stop m.memory
  | failed s memory f hpc hline hdone => exact hm.stop memory
  | continued s memory outcome hpc hline hdone hsilent =>
      exact coherent_of_phase hpc (by simp [hphase]) (by simp [hphase])
  | jumped s memory address hpc hline hdone =>
      obtain ⟨target, -, hres⟩ := Memory.resolve_of_jump (congrArg Prod.snd hdone)
      have hlt : address < m.program.size := Program.lt_size_of_resolve hres
      exact coherent_of_phase (Nat.le_of_lt hlt) (by simp [hphase]) (by simp [hphase])
  | printed s memory text hpc hline hdone htext =>
      exact coherent_of_phase hpc (by simp [hphase]) (by simp [hphase])
  | asked s memory prompt hpc hline hdone =>
      obtain ⟨argument, rfl, hprompt⟩ := Memory.read_of_input (congrArg Prod.snd hdone)
      -- The question is still the current line: asking does not move on.
      have hquestion := atQuestion_of_statementAt hpc hline
      refine ⟨hm.pc_le, hm.label_lt, ?_, by simp⟩
      intro shown hshown
      cases hshown
      exact ⟨argument, hquestion, hprompt⟩
  | exited s memory value hpc hline hdone => exact hm.stop memory

theorem Coherent.steps {m : Machine} (hm : m.Coherent) (hphase : m.phase = .running)
    (budget : Nat) : (Machine.steps budget m).1.Coherent := by
  induction budget generalizing m with
  | zero => exact hm
  | succ budget ih =>
      rw [Machine.steps]
      cases hstep : m.step with
      | mk m' event =>
          have hstepped := stepped_of_step hstep
          have hm' := hm.stepped hphase hstepped
          cases event with
          | none => exact ih hm' (hstepped.phase_eq.trans hphase)
          | some event => exact hm'

theorem Coherent.execute {m : Machine} (hm : m.Coherent) (budget : Nat) :
    (m.execute budget).1.Coherent := by
  unfold Machine.execute
  cases hphase : m.phase with
  | stopped => exact hm
  | running => exact hm.steps hphase budget
  | waiting prompt => exact hm
  | inputClosed => exact hm.stop m.memory
  | interrupted => exact hm.stop m.memory

/-- Loading preserves coherence: a new program is entered at its first line, and a program that is
kept is left at its first line. -/
theorem coherent_load {m : Machine} (source : List String) : (m.load source).1.Coherent := by
  unfold Machine.load
  cases Program.ofSource source with
  | ok p => exact coherent_of_phase (Nat.zero_le _) (by simp) (by simp)
  | error f => exact coherent_of_phase (Nat.zero_le _) (by simp [reset]) (by simp [reset])

theorem Coherent.interrupt {m : Machine} (hm : m.Coherent) : m.interrupt.Coherent := by
  unfold Machine.interrupt
  split
  · exact hm
  · exact coherent_of_phase hm.pc_le (by simp) (by simp)

/-- Answering preserves coherence: the machine was at a question, so there is a line behind it or
the end of the program. -/
theorem Coherent.reply {m : Machine} (hm : m.Coherent) (s : String) : (m.reply s).Coherent := by
  unfold Machine.reply
  split
  · next prompt hphase =>
      obtain ⟨argument, ⟨l, hpc, -, -⟩, -⟩ := hm.waiting prompt hphase
      exact coherent_of_phase hpc (by simp) (by simp)
  · exact hm

theorem Coherent.closeInput {m : Machine} (hm : m.Coherent) : m.closeInput.Coherent := by
  unfold Machine.closeInput
  split
  · next prompt hphase =>
      obtain ⟨argument, hquestion, -⟩ := hm.waiting prompt hphase
      exact ⟨hm.pc_le, hm.label_lt, by simp, fun _ => ⟨argument, hquestion⟩⟩
  · exact hm

theorem Coherent.call {m : Machine} (hm : m.Coherent) (c : Call) : (m.call c).Coherent := by
  cases c with
  | load source => exact coherent_load source
  | seed s => exact ⟨hm.pc_le, hm.label_lt, hm.waiting, hm.inputClosed⟩
  | interrupt => exact hm.interrupt
  | reply s => exact hm.reply s
  | closeInput => exact hm.closeInput
  | execute budget => exact hm.execute budget

theorem Coherent.after {m : Machine} (hm : m.Coherent) (calls : List Call) :
    (m.after calls).Coherent :=
  after_induction (fun _ c hm => hm.call c) hm calls

theorem Coherent.of_mem_trace {m : Machine} (hm : m.Coherent) {calls : List Call} {t : Moment}
    (h : t ∈ m.trace calls) : t.machine.Coherent := by
  have hall : ∀ t ∈ m.trace calls, True := fun _ _ => trivial
  have hcall : ∀ t : Moment, True → t.machine.Coherent → t.next.Coherent :=
    fun t _ hm => hm.call t.call
  exact (trace_induction hcall hm hall).2 t h

/-- A step that jumps is at the line it jumps to, and there is such a line. -/
theorem step_of_jump {m : Machine} {s : Statement} {address : Nat} (hpc : m.pc < m.program.size)
    (hline : m.program.statementAt m.pc = .ok (some s))
    (hjump : (m.memory.perform m.program s).2 = .ok (.jump address)) :
    m.step.2 = none ∧ m.step.1.pc = address ∧ m.step.1.program = m.program ∧
      address < m.program.size := by
  obtain ⟨target, -, hres⟩ := Memory.resolve_of_jump hjump
  have hdone : m.memory.perform m.program s =
      ((m.memory.perform m.program s).1, .ok (.jump address)) := by
    rw [← hjump]
  have hstep : m.step = ({ m with memory := (m.memory.perform m.program s).1, pc := address },
      none) := by
    rw [step, if_pos hpc, hline]
    simp only [perform]
    rw [hdone]
    rfl
  rw [hstep]
  exact ⟨rfl, rfl, rfl, Program.lt_size_of_resolve hres⟩

/-- **Every machine knows where it is.**  After every history of calls from a fresh machine, the
next line is in the program or its end, all labels stand for lines, and a machine that waits for a
line or was refused one is at the question that asked for it, with the argument of that question as
its prompt.  And every step of a machine that takes a jump, conditional or not, ends at a line of
the program. -/
theorem coherent_after (clock : Random.Clock) (calls : List Call) :
    ((fresh clock).after calls).Coherent ∧
    ∀ (m : Machine) (s : Statement) (address : Nat), m.pc < m.program.size →
      m.program.statementAt m.pc = .ok (some s) →
      (m.memory.perform m.program s).2 = .ok (.jump address) →
      m.step.2 = none ∧ m.step.1.pc = address ∧ m.step.1.pc < m.step.1.program.size := by
  refine ⟨(coherent_fresh clock).after calls, ?_⟩
  intro m s address hpc hline hjump
  obtain ⟨hsilent, hat, hprogram, hlt⟩ := step_of_jump hpc hline hjump
  refine ⟨hsilent, hat, ?_⟩
  rw [hat, hprogram]
  exact hlt

/-- A program that asks for numbers without end, at its jump back after the first of them. -/
def atJumpBack : Machine :=
  (fresh (.ticking 0)).after [.load ["|TOP|", "READ \"n? \"", "GOTO TOP"], .execute 9, .reply "3"]

theorem coherent_after_atJumpBack :
    atJumpBack.Coherent ∧ atJumpBack.pc = 2 ∧ atJumpBack.step.1.pc = 0 ∧
      atJumpBack.step.1.pc < atJumpBack.step.1.program.size := by
  have hall := coherent_after (.ticking 0)
    [.load ["|TOP|", "READ \"n? \"", "GOTO TOP"], .execute 9, .reply "3"]
  have hjump := hall.2 atJumpBack (.goto (.label "TOP")) 0 (by decide +kernel) (by rfl) (by rfl)
  exact ⟨hall.1, by decide +kernel, hjump.2.1, hjump.2.2⟩

end Machine
end Fifo
