import Fifo.Proofs.Machine.Slicing

/-!
# Printing the queue

A queue can be printed value by value, all at once, or in one row that leaves it as it is.  What a
user reads is the same in the first two cases, though the events are not: each `POP` is an event of
its own, and none if it prints an empty text, while `POPALL` is one event or none.

The comparison is made step by step.  A slice of one step that prints a text shows it
(`execute_one_of_print`), so a slice for each value of the queue shows the texts of all values in
order (`run_pops`).  The other two ways print texts that are put together from these.
-/

namespace Fifo

namespace Event

/-- What a slice of one step ends with if the step prints a text: an empty text is no event. -/
def ofText (text : String) : Event :=
  if text = "" then .running else .print text

@[simp] theorem shown_ofText (text : String) : (ofText text).shown = text := by
  unfold ofText
  split
  · next hempty => exact hempty.symm
  · rfl

@[simp] theorem isFinal_ofText (text : String) : (ofText text).isFinal = false := by
  unfold ofText
  split <;> rfl

theorem ofText_ne_input (text prompt : String) : ofText text ≠ .input prompt := by
  unfold ofText
  split <;> simp

theorem ofText_of_ne {text : String} (h : text ≠ "") : ofText text = .print text :=
  if_neg h

theorem shown_map_ofText (texts : List String) : (texts.map ofText).map shown = texts := by
  rw [List.map_map]
  exact List.map_id'' shown_ofText texts

theorem texts_map_ofText (texts : List String) :
    Event.texts (texts.map ofText) = String.join texts := by
  rw [Event.texts, shown_map_ofText]

end Event

/-- The same statement stands in a number of lines, one after the other. -/
def Program.Repeats (p : Program) (s : Statement) (address count : Nat) : Prop :=
  ∀ i < count, p.statementAt (address + i) = .ok (some s)

/-- The texts that a queue's values are printed as, front to back. -/
def Queue.printed (ending : Ending) (q : Queue Value) : List String :=
  q.toList.map fun v => v.render ++ ending.text

theorem Program.Repeats.tail {p : Program} {s : Statement} {address count : Nat}
    (h : p.Repeats s address (count + 1)) : p.Repeats s (address + 1) count := by
  intro i hi
  have hnext := h (i + 1) (by omega)
  rwa [show address + (i + 1) = address + 1 + i by omega] at hnext

namespace Machine

/-- A slice of one step that prints a text goes on with the next line and shows the text. -/
theorem execute_one_of_print {m : Machine} {s : Statement} {memory : Memory} {text : String}
    (hphase : m.phase = .running) (hline : m.program.statementAt m.pc = .ok (some s))
    (hdone : m.memory.perform m.program s = (memory, .ok (.print text))) :
    m.execute 1 = ({ m with memory := memory, pc := m.pc + 1 }, .ofText text) := by
  have hpc := pc_lt_of_statementAt hline
  rw [execute_of_running hphase, steps, Event.ofText]
  by_cases htext : text = ""
  · subst htext
    rw [(Stepped.continued s memory (.print "") hpc hline hdone (.inr rfl)).step_eq]
    rfl
  · rw [(Stepped.printed s memory text hpc hline hdone htext).step_eq, if_neg htext]
    rfl

end Machine

namespace Dialogue

/-- A turn whose slice asks for nothing is that slice. -/
theorem turn_of_execute {d : Dialogue} {budget : Nat} {m : Machine} {event : Event}
    (h : d.machine.execute budget = (m, event)) (hevent : ∀ prompt, event ≠ .input prompt) :
    d.turn budget = ({ d with machine := m }, event) := by
  rw [turn, h]
  cases event with
  | input prompt => exact absurd rfl (hevent prompt)
  | stopped => rfl
  | running => rfl
  | print text => rfl
  | exit value => rfl
  | fault f => rfl

/-- Slices of one step, one for each value of the queue, in lines that all print the value in front
and take it: they show the values in order and leave none. -/
theorem run_pops {ending : Ending} {m : Machine} (hphase : m.phase = .running)
    (hlines : m.program.Repeats (.act (.pop ending)) m.pc m.queue.length) (lines : List String) :
    run (List.replicate m.queue.length 1) ⟨m, lines⟩ =
      (⟨{ m with memory.queue := .empty, pc := m.pc + m.queue.length }, lines⟩,
        (m.queue.printed ending).map .ofText) := by
  generalize hvalues : m.queue.toList = vs
  rw [Queue.printed, hvalues]
  rw [← Queue.length_toList, hvalues] at hlines ⊢
  induction vs generalizing m with
  | nil =>
      have hempty : m.memory.queue = .empty := Queue.eq_empty_of_toList hvalues
      rw [← hempty]
      rfl
  | cons v vs ih =>
      -- The first slice takes the value in front; what is left is a shorter queue, one line on.
      obtain ⟨rest, hpop, hrest⟩ := Queue.pop_of_cons hvalues
      have hdone : m.memory.perform m.program (.act (.pop ending)) =
          ({ m.memory with queue := rest }, .ok (.print (v.render ++ ending.text))) := by
        show m.memory.pop ending = _
        rw [Memory.pop, show m.memory.queue.pop = (.ok v, rest) from hpop]
      have hslice := Machine.execute_one_of_print hphase (hlines 0 (by simp)) hdone
      have hturn := turn_of_execute (d := ⟨m, lines⟩) hslice (Event.ofText_ne_input _)
      have hlater := ih (m := { m with memory.queue := rest, pc := m.pc + 1 }) hphase hlines.tail
        hrest
      rw [List.length_cons, List.replicate_succ, run_cons, hturn, Event.isFinal_ofText, hlater]
      simp only [Bool.false_eq_true, if_false, List.map_cons]
      rw [show m.pc + 1 + vs.length = m.pc + (vs.length + 1) by omega]

end Dialogue

namespace Machine

/-- **Taking all values is taking them one by one.**  Let a machine be in front of as many lines
that print the value in front and take it as it has values, and let it perform them one by one.  It
has then no values left, and each slice has shown the text of a value: the slice of an empty text by
having no event.  A machine with the same values in a line that prints and takes them all has none
left after one step, and has shown the texts of those slices, one behind the other; again, it has no
event if there is nothing to show.  A machine with the same values in a line that displays them
shows the same texts, as they are without line feeds, with a comma and a space between them and a
line feed behind them, and keeps its values. -/
theorem popAll_is_repeated_pop (ending : Ending) (m : Machine) (lines : List String)
    (hphase : m.phase = .running)
    (hlines : m.program.Repeats (.act (.pop ending)) m.pc m.queue.length) :
    ∃ events : List Event,
      Dialogue.run (List.replicate m.queue.length 1) ⟨m, lines⟩ =
        (⟨{ m with memory.queue := .empty, pc := m.pc + m.queue.length }, lines⟩, events) ∧
      events = (m.queue.toList.map fun v => v.render ++ ending.text).map .ofText ∧
      ∀ n : Machine, n.phase = .running → n.queue.toList = m.queue.toList →
        (n.program.statementAt n.pc = .ok (some (.act (.popAll ending))) →
          n.execute 1 = ({ n with memory.queue := .empty, pc := n.pc + 1 },
            .ofText (Event.texts events))) ∧
        (ending = .none → n.program.statementAt n.pc = .ok (some (.act .display)) →
          n.execute 1 = ({ n with pc := n.pc + 1 },
            .print (String.intercalate ", " (events.map Event.shown) ++ "\n"))) := by
  refine ⟨_, Dialogue.run_pops hphase hlines lines, rfl, fun n hn hqueue => ⟨?_, ?_⟩⟩
  · intro hline
    have hdone : n.memory.perform n.program (.act (.popAll ending)) =
        ({ n.memory with queue := .empty },
          .ok (.print (String.join (n.queue.toList.map fun v => v.render ++ ending.text)))) := rfl
    rw [execute_one_of_print hn hline hdone, Event.texts_map_ofText, Queue.printed, hqueue]
  · rintro rfl hline
    have hdone : n.memory.perform n.program (.act .display) =
        (n.memory, .ok (.print
          (String.intercalate ", " (n.queue.toList.map Value.render) ++ "\n"))) := rfl
    have hplain : m.queue.printed .none = m.queue.toList.map Value.render :=
      List.map_congr_left fun v _ => String.append_empty
    have hshown : String.intercalate ", " (m.queue.toList.map Value.render) ++ "\n" ≠ "" := by
      simp
    rw [execute_one_of_print hn hline hdone, Event.shown_map_ofText, hplain, hqueue,
      Event.ofText_of_ne hshown]

/-- A machine that has pushed a number, an empty text and a text with a comma, and has these lines
in front of it. -/
def holdingThree (lines : List String) : Machine :=
  ((fresh (.ticking 0)).load (["PUSH -3", "PUSH \"\"", "PUSH \"a, b\""] ++ lines)).1.execute 3 |>.1

theorem popAll_is_repeated_pop_three :
    (holdingThree ["POP", "POP", "POP"]).queue.length = 3 ∧
      (Dialogue.run [1, 1, 1] ⟨holdingThree ["POP", "POP", "POP"], []⟩).2 =
        [.print "-3", .running, .print "a, b"] ∧
      ((holdingThree ["POPALL"]).execute 1).2 = .print "-3a, b" ∧
      ((holdingThree ["POPALL"]).execute 1).1.queue = .empty ∧
      ((holdingThree ["QDISPLAY"]).execute 1).2 = .print "-3, , a, b\n" := by
  have hlength : (holdingThree ["POP", "POP", "POP"]).queue.length = 3 := by decide +kernel
  have hlines : (holdingThree ["POP", "POP", "POP"]).program.Repeats (.act (.pop .none))
      (holdingThree ["POP", "POP", "POP"]).pc
      (holdingThree ["POP", "POP", "POP"]).queue.length := by
    rw [hlength, Program.Repeats]
    decide +kernel
  obtain ⟨events, hrun, hevents, hothers⟩ := popAll_is_repeated_pop .none
    (holdingThree ["POP", "POP", "POP"]) [] (by decide +kernel) hlines
  have hshown : events = [.print "-3", .running, .print "a, b"] := by
    rw [hevents]
    decide +kernel
  have hall := (hothers (holdingThree ["POPALL"]) (by decide +kernel) (by decide +kernel)).1
    (by decide +kernel)
  have hrow := (hothers (holdingThree ["QDISPLAY"]) (by decide +kernel) (by decide +kernel)).2 rfl
    (by decide +kernel)
  rw [hlength] at hrun
  refine ⟨hlength, ?_, ?_, ?_, ?_⟩
  · rw [← hshown]
    exact congrArg Prod.snd hrun
  · rw [hall, hshown]
    decide +kernel
  · rw [hall]
    rfl
  · rw [hrow, hshown]
    decide +kernel

end Machine
end Fifo
