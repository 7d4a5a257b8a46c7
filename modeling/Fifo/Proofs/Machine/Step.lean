import Fifo.Machine

/-!
# What one step does

`Machine.Stepped` lists everything that a step can do, each case with the conditions under which it
is taken, and `stepped_of_step` says that there is nothing else.  Facts about runs are proved from
this list, case by case, and never from the definition of a step.

The first such facts are about whole slices: steps that meet no event leave the phase as it was, and
no step answers that the machine is still running or has stopped before.  `Machine.Sliced` lists
everything that a slice can do, in terms of its steps, and `sliced_of_execute` says that there is
nothing else.
-/

namespace Fifo
namespace Machine

/-- Everything that a step can do to a machine, with the event it ends in. -/
inductive Stepped (m : Machine) : Machine → Option Event → Prop
  /-- There is no line left. -/
  | ended (hend : m.program.size ≤ m.pc) :
      Stepped m { m with phase := .stopped } (some (.exit 0))
  /-- The line stands for no statement. -/
  | skipped (hpc : m.pc < m.program.size) (hline : m.program.statementAt m.pc = .ok none) :
      Stepped m { m with pc := m.pc + 1 } none
  /-- The line cannot be decoded. -/
  | undecoded (f : Fault) (hpc : m.pc < m.program.size)
      (hline : m.program.statementAt m.pc = .error f) :
      Stepped m { m with phase := .stopped } (some (.fault (f.inLine m.pc)))
  /-- The statement fails; the memory is what the failure leaves. -/
  | failed (s : Statement) (memory : Memory) (f : Fault) (hpc : m.pc < m.program.size)
      (hline : m.program.statementAt m.pc = .ok (some s))
      (hdone : m.memory.perform m.program s = (memory, .error f)) :
      Stepped m { m with memory := memory, phase := .stopped } (some (.fault (f.inLine m.pc)))
  /-- The statement goes on with the next line; it may have printed an empty text. -/
  | continued (s : Statement) (memory : Memory) (outcome : Outcome) (hpc : m.pc < m.program.size)
      (hline : m.program.statementAt m.pc = .ok (some s))
      (hdone : m.memory.perform m.program s = (memory, .ok outcome))
      (hsilent : outcome = .next ∨ outcome = .print "") :
      Stepped m { m with memory := memory, pc := m.pc + 1 } none
  /-- The statement jumps. -/
  | jumped (s : Statement) (memory : Memory) (address : Nat) (hpc : m.pc < m.program.size)
      (hline : m.program.statementAt m.pc = .ok (some s))
      (hdone : m.memory.perform m.program s = (memory, .ok (.jump address))) :
      Stepped m { m with memory := memory, pc := address } none
  /-- The statement prints a text that is not empty. -/
  | printed (s : Statement) (memory : Memory) (text : String) (hpc : m.pc < m.program.size)
      (hline : m.program.statementAt m.pc = .ok (some s))
      (hdone : m.memory.perform m.program s = (memory, .ok (.print text))) (htext : text ≠ "") :
      Stepped m { m with memory := memory, pc := m.pc + 1 } (some (.print text))
  /-- The statement asks for a line and stays where it is. -/
  | asked (s : Statement) (memory : Memory) (prompt : String) (hpc : m.pc < m.program.size)
      (hline : m.program.statementAt m.pc = .ok (some s))
      (hdone : m.memory.perform m.program s = (memory, .ok (.input prompt))) :
      Stepped m { m with memory := memory, phase := .waiting prompt } (some (.input prompt))
  /-- The statement ends the program. -/
  | exited (s : Statement) (memory : Memory) (value : Int64) (hpc : m.pc < m.program.size)
      (hline : m.program.statementAt m.pc = .ok (some s))
      (hdone : m.memory.perform m.program s = (memory, .ok (.exit value))) :
      Stepped m { m with memory := memory, phase := .stopped } (some (.exit value))

theorem stepped_perform {m : Machine} {s : Statement} (hpc : m.pc < m.program.size)
    (hline : m.program.statementAt m.pc = .ok (some s)) :
    Stepped m (m.perform s).1 (m.perform s).2 := by
  unfold perform
  cases hdone : m.memory.perform m.program s with
  | mk memory result =>
      cases result with
      | error f => exact .failed s memory f hpc hline hdone
      | ok outcome =>
          cases outcome with
          | next => exact .continued s memory .next hpc hline hdone (.inl rfl)
          | jump address => exact .jumped s memory address hpc hline hdone
          | input prompt => exact .asked s memory prompt hpc hline hdone
          | exit value => exact .exited s memory value hpc hline hdone
          | print text =>
              -- Printing is the one outcome whose event depends on what it carries.
              by_cases htext : text = ""
              · subst htext
                exact .continued s memory (.print "") hpc hline hdone (.inr rfl)
              · have hfollow : Machine.follow { m with memory := memory } (.print text) =
                    ({ m with memory := memory, pc := m.pc + 1 }, some (.print text)) := by
                  simp [follow, advance, htext]
                simp only [hfollow]
                exact .printed s memory text hpc hline hdone htext

/-- A step does one of the things listed. -/
theorem stepped_step (m : Machine) : Stepped m m.step.1 m.step.2 := by
  unfold step
  by_cases hpc : m.pc < m.program.size
  · rw [if_pos hpc]
    cases hline : m.program.statementAt m.pc with
    | error f => exact .undecoded f hpc hline
    | ok found =>
        cases found with
        | none => exact .skipped hpc hline
        | some s => exact stepped_perform hpc hline
  · rw [if_neg hpc]
    exact .ended (Nat.le_of_not_lt hpc)

theorem stepped_of_step {m m' : Machine} {event : Option Event} (h : m.step = (m', event)) :
    Stepped m m' event := by
  have hstep := stepped_step m
  rw [h] at hstep
  exact hstep

theorem pc_lt_of_statementAt {m : Machine} {s : Statement}
    (h : m.program.statementAt m.pc = .ok (some s)) : m.pc < m.program.size := by
  refine Nat.lt_of_not_le fun hend => ?_
  rw [Program.statementAt_eq, Program.line?, Array.getElem?_eq_none hend] at h
  cases h

theorem step_of_statementAt {m : Machine} {s : Statement} (hpc : m.pc < m.program.size)
    (hline : m.program.statementAt m.pc = .ok (some s)) : m.step = m.perform s := by
  rw [step, if_pos hpc, hline]

/-- Each of the things listed is done whenever its conditions hold, so the list is a description of
steps from which they can be computed again. -/
theorem Stepped.step_eq {m m' : Machine} {event : Option Event} (h : Stepped m m' event) :
    m.step = (m', event) := by
  cases h with
  | ended hend =>
      rw [step, if_neg (Nat.not_lt.mpr hend)]
      rfl
  | skipped hpc hline =>
      rw [step, if_pos hpc, hline]
      rfl
  | undecoded f hpc hline =>
      rw [step, if_pos hpc, hline]
      rfl
  | failed s memory f hpc hline hdone =>
      rw [step_of_statementAt hpc hline, perform, hdone]
      rfl
  | continued s memory outcome hpc hline hdone hsilent =>
      rw [step_of_statementAt hpc hline, perform, hdone]
      rcases hsilent with rfl | rfl <;> rfl
  | jumped s memory address hpc hline hdone =>
      rw [step_of_statementAt hpc hline, perform, hdone]
      rfl
  | printed s memory text hpc hline hdone htext =>
      rw [step_of_statementAt hpc hline, perform, hdone]
      simp [follow, advance, htext]
  | asked s memory prompt hpc hline hdone =>
      rw [step_of_statementAt hpc hline, perform, hdone]
      rfl
  | exited s memory value hpc hline hdone =>
      rw [step_of_statementAt hpc hline, perform, hdone]
      rfl

theorem Stepped.phase_eq {m m' : Machine} (h : Stepped m m' none) : m'.phase = m.phase := by
  cases h <;> rfl

theorem Stepped.event_ne_running {m m' : Machine} {event : Event}
    (h : Stepped m m' (some event)) : event ≠ .running := by
  cases h <;> simp

/-- Steps without an event leave the phase as it was. -/
theorem phase_eq_of_steps_none {budget : Nat} {m m' : Machine}
    (h : steps budget m = (m', none)) : m'.phase = m.phase := by
  induction budget generalizing m with
  | zero =>
      obtain ⟨rfl, -⟩ := Prod.mk.inj h
      rfl
  | succ budget ih =>
      rw [steps] at h
      cases hstep : m.step with
      | mk next event =>
          rw [hstep] at h
          cases event with
          | none => exact (ih h).trans (stepped_of_step hstep).phase_eq
          | some event => cases h

/-- A run of steps that ends in an event takes some steps without one, and then the step that ends
it. -/
theorem last_step_of_steps {budget : Nat} {m m' : Machine} {event : Event}
    (h : steps budget m = (m', some event)) :
    ∃ done start, done < budget ∧ steps done m = (start, none) ∧
      start.step = (m', some event) := by
  induction budget generalizing m with
  | zero => cases h
  | succ budget ih =>
      rw [steps] at h
      cases hstep : m.step with
      | mk next found =>
          rw [hstep] at h
          cases found with
          | some found => exact ⟨0, m, Nat.succ_pos budget, rfl, hstep.trans h⟩
          | none =>
              obtain ⟨done, start, hlt, hbefore, hlast⟩ := ih h
              refine ⟨done + 1, start, Nat.succ_lt_succ hlt, ?_, hlast⟩
              rw [steps, hstep]
              exact hbefore

theorem event_ne_running_of_steps {budget : Nat} {m m' : Machine} {event : Event}
    (h : steps budget m = (m', some event)) : event ≠ .running := by
  induction budget generalizing m with
  | zero => cases h
  | succ budget ih =>
      rw [steps] at h
      cases hstep : m.step with
      | mk next found =>
          rw [hstep] at h
          cases found with
          | none => exact ih h
          | some found =>
              obtain ⟨-, hfound⟩ := Prod.mk.inj h
              cases hfound
              exact (stepped_of_step hstep).event_ne_running

/-- Everything that a slice can do to a machine, with the event it ends in.  Only a machine that has
more to run performs steps. -/
inductive Sliced (budget : Nat) (m : Machine) : Machine → Event → Prop
  /-- There was nothing to run. -/
  | stopped (hphase : m.phase = .stopped) : Sliced budget m m .stopped
  /-- The line that was asked for has not come yet. -/
  | waiting (prompt : String) (hphase : m.phase = .waiting prompt) :
      Sliced budget m m (.input prompt)
  /-- The line that was asked for will not come. -/
  | refused (hphase : m.phase = .inputClosed) :
      Sliced budget m { m with phase := .stopped } (.fault ((Fault.of .invalidRead).inLine m.pc))
  /-- The user has interrupted the program. -/
  | interrupted (hphase : m.phase = .interrupted) :
      Sliced budget m { m with phase := .stopped } (.fault ((Fault.of .interrupted).inLine m.pc))
  /-- All steps were performed and met no event. -/
  | usedUp (m' : Machine) (hphase : m.phase = .running) (hsteps : steps budget m = (m', none)) :
      Sliced budget m m' .running
  /-- A step ended in an event. -/
  | ended (start m' : Machine) (event : Event) (done : Nat) (hphase : m.phase = .running)
      (hbudget : done < budget) (hbefore : steps done m = (start, none))
      (hstep : start.step = (m', some event)) : Sliced budget m m' event

/-- A slice does one of the things listed. -/
theorem sliced_of_execute {budget : Nat} {m m' : Machine} {event : Event}
    (h : m.execute budget = (m', event)) : Sliced budget m m' event := by
  unfold execute at h
  cases hphase : m.phase with
  | stopped =>
      simp only [hphase, Prod.mk.injEq] at h
      obtain ⟨rfl, rfl⟩ := h
      exact .stopped hphase
  | waiting prompt =>
      simp only [hphase, Prod.mk.injEq] at h
      obtain ⟨rfl, rfl⟩ := h
      exact .waiting prompt hphase
  | inputClosed =>
      simp only [hphase, fail, Prod.mk.injEq] at h
      obtain ⟨rfl, rfl⟩ := h
      exact .refused hphase
  | interrupted =>
      simp only [hphase, fail, Prod.mk.injEq] at h
      obtain ⟨rfl, rfl⟩ := h
      exact .interrupted hphase
  | running =>
      simp only [hphase, Prod.mk.injEq] at h
      obtain ⟨rfl, rfl⟩ := h
      cases hsteps : steps budget m with
      | mk m' found =>
          cases found with
          | none => exact .usedUp m' hphase hsteps
          | some event =>
              obtain ⟨done, start, hlt, hbefore, hstep⟩ := last_step_of_steps hsteps
              exact .ended start m' event done hphase hlt hbefore hstep

end Machine
end Fifo
