import Fifo.Machine.Memory

/-!
# Which statements ask for what

Only a jump asks the machine to go on elsewhere, and then to the line that its target stands for.
Only a question asks it to wait, and then with the text of its argument as the prompt.
-/

namespace Fifo
namespace Memory

/-- The prompt of a question: the text of its argument, empty where there is none. -/
def promptOf (argument : Option Value) : String :=
  match argument with
  | some v => v.render
  | none => ""

theorem combine_outcome {m : Memory} {op : Operation} {operands : Operands} {outcome : Outcome}
    (h : (m.act (.combine op operands)).2 = .ok outcome) : outcome = .next := by
  rcases m.combine_result op operands with hresult | ⟨a, b, hresult⟩
  · rw [hresult] at h
    cases h
  · rw [hresult] at h
    cases hvalue : op.apply a b with
    | error f => simp [hvalue, Except.map] at h
    | ok v =>
        rw [hvalue] at h
        exact (Except.ok.inj h).symm

/-- An action on the queue goes on with the next line, prints a text or ends the program. -/
theorem act_outcome {m : Memory} {a : Action} {outcome : Outcome}
    (h : (m.act a).2 = .ok outcome) :
    outcome = .next ∨ (∃ text, outcome = .print text) ∨ ∃ value, outcome = .exit value := by
  cases a with
  | combine op operands => exact Or.inl (combine_outcome h)
  | nothing => exact Or.inl (Except.ok.inj h).symm
  | peek ending =>
      simp only [act, peek] at h
      cases hfirst : m.queue.first with
      | error f => simp [hfirst] at h
      | ok v =>
          rw [hfirst] at h
          exact Or.inr (Or.inl ⟨_, (Except.ok.inj h).symm⟩)
  | pop ending =>
      simp only [act, pop] at h
      rcases m.queue.pop_cases with ⟨-, hpop⟩ | ⟨v, rest, -, hpop⟩
      · simp [hpop] at h
      · rw [hpop] at h
        exact Or.inr (Or.inl ⟨_, (Except.ok.inj h).symm⟩)
  | popAll ending => exact Or.inr (Or.inl ⟨_, (Except.ok.inj h).symm⟩)
  | display => exact Or.inr (Or.inl ⟨_, (Except.ok.inj h).symm⟩)
  | shuffle => exact Or.inl (Except.ok.inj h).symm
  | sort direction => exact Or.inl (Except.ok.inj h).symm
  | exit =>
      simp only [act, exit] at h
      split at h
      · cases h
      · exact Or.inr (Or.inr ⟨_, (Except.ok.inj h).symm⟩)
      · cases h

theorem goto_outcome {m : Memory} {p : Program} {target : Target} {outcome : Outcome}
    (h : (m.goto p target).2 = .ok outcome) :
    ∃ address, p.resolve target = .ok address ∧ outcome = .jump address := by
  simp only [goto] at h
  cases hres : p.resolve target with
  | error f => simp [hres, Except.map] at h
  | ok address =>
      rw [hres] at h
      exact ⟨address, rfl, (Except.ok.inj h).symm⟩

/-- A conditional jump that does not fail goes there or goes on, whichever its condition says. -/
theorem branch_outcome {m : Memory} {p : Program} {relation : Relation} {target : Target}
    {outcome : Outcome} (h : (m.branch p relation target).2 = .ok outcome) :
    ∃ address, p.resolve target = .ok address ∧
      (outcome = .jump address ∨ outcome = .next) := by
  simp only [branch] at h
  cases hres : p.resolve target with
  | error f => simp [hres] at h
  | ok address =>
      -- The target is resolved before the condition is looked at.
      refine ⟨address, rfl, ?_⟩
      cases hfirst : m.queue.firstTwo with
      | error f => simp [hres, hfirst] at h
      | ok seen =>
          cases htest : relation.test seen.1 seen.2 with
          | error f => simp [hres, hfirst, htest, Except.map] at h
          | ok holds =>
              simp only [hres, hfirst, htest, Except.map, Except.ok.injEq] at h
              cases holds with
              | true => exact Or.inl h.symm
              | false => exact Or.inr h.symm

/-- A statement that jumps is a jump, and its target stands for the line it goes to. -/
theorem resolve_of_jump {m : Memory} {p : Program} {s : Statement} {address : Nat}
    (h : (m.perform p s).2 = .ok (.jump address)) :
    ∃ target, (s = .goto target ∨ ∃ relation, s = .branch relation target) ∧
      p.resolve target = .ok address := by
  cases s with
  | act a =>
      rcases act_outcome h with habs | ⟨text, habs⟩ | ⟨value, habs⟩ <;> cases habs
  | goto target =>
      obtain ⟨found, hres, heq⟩ := goto_outcome h
      cases heq
      exact ⟨target, Or.inl rfl, hres⟩
  | branch relation target =>
      obtain ⟨found, hres, heq | habs⟩ := branch_outcome h
      · cases heq
        exact ⟨target, Or.inr ⟨relation, rfl⟩, hres⟩
      · cases habs
  | push literal => simp [perform] at h
  | print literal => simp [perform] at h
  | read prompt => simp [perform] at h

/-- A statement that waits for a line is a question, and its argument is the prompt. -/
theorem read_of_input {m : Memory} {p : Program} {s : Statement} {prompt : String}
    (h : (m.perform p s).2 = .ok (.input prompt)) :
    ∃ argument, s = .read argument ∧ prompt = promptOf argument := by
  cases s with
  | act a =>
      rcases act_outcome h with habs | ⟨text, habs⟩ | ⟨value, habs⟩ <;> cases habs
  | goto target =>
      obtain ⟨found, -, habs⟩ := goto_outcome h
      cases habs
  | branch relation target =>
      obtain ⟨found, -, habs | habs⟩ := branch_outcome h <;> cases habs
  | push literal => simp [perform] at h
  | print literal => simp [perform] at h
  | read argument =>
      refine ⟨argument, rfl, ?_⟩
      cases argument <;> simpa [perform, promptOf] using h.symm

end Memory
end Fifo
