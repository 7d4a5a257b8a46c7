import Fifo.Proofs.Machine.Step
import Mathlib.Algebra.Ring.Nat

/-!
# Slices cannot be told apart

A slice of `a + b` steps is a slice of `a` steps and, if that used up its steps, one of `b` steps.
A host that runs a program slice by slice, and prints and answers questions as it goes, therefore
sees the same events however it cuts the run.

The two runs of such a comparison are out of step with each other at every event, because an event
ends a slice early and the rest of its steps are dropped.  So both are compared with a third: every
turn of the host amounts to a number of turns of one step each (`turn_amounts_to_units`), hence so
does every dialogue (`run_amounts_to_units`), and of two dialogues in single steps one continues
the other (`run_units_of_le`).
-/

namespace Fifo
namespace Machine

theorem execute_of_running {m : Machine} (hphase : m.phase = .running) (budget : Nat) :
    m.execute budget = ((steps budget m).1, (steps budget m).2.getD .running) := by
  rw [execute, hphase]

/-- Without more to run, the number of steps in a slice does not matter, and the event says so. -/
theorem execute_of_not_running {m : Machine} (hphase : m.phase ≠ .running) (a b : Nat) :
    m.execute a = m.execute b ∧ (m.execute a).2 ≠ .running := by
  unfold execute
  cases h : m.phase with
  | running => exact absurd h hphase
  | stopped => simp
  | waiting prompt => simp
  | inputClosed => simp [fail]
  | interrupted => simp [fail]

/-- A slice may be cut in two: the second part is run exactly where the first used up its steps. -/
theorem execute_add (a b : Nat) (m : Machine) :
    m.execute (a + b) =
      if (m.execute a).2 = .running then (m.execute a).1.execute b else m.execute a := by
  by_cases hphase : m.phase = .running
  · rw [execute_of_running hphase, execute_of_running hphase, steps_add]
    cases hsteps : steps a m with
    | mk m' event =>
        cases event with
        | none =>
            -- The steps that are left make a slice of their own only if the machine still runs.
            have hphase' : m'.phase = .running := (phase_eq_of_steps_none hsteps).trans hphase
            exact (execute_of_running hphase' b).symm
        | some event =>
            have hne : event ≠ .running := event_ne_running_of_steps hsteps
            exact (if_neg hne).symm
  · obtain ⟨hsame, hne⟩ := execute_of_not_running hphase a (a + b)
    rw [if_neg hne, hsame]

end Machine

/-- Is there nothing more to run after the event? -/
def Event.isFinal : Event → Bool
  | .stopped | .exit _ | .fault _ => true
  | .running | .print _ | .input _ => false

/-- The events that a user can notice: all but those of slices that used up their steps. -/
def Event.visible (events : List Event) : List Event :=
  events.filter (· ≠ .running)

/-- What a user sees of an event as it happens. -/
def Event.shown : Event → String
  | .print text => text
  | .input prompt => prompt
  | _ => ""

/-- What a user sees of events that happen one after the other. -/
def Event.texts (events : List Event) : String :=
  String.join (events.map shown)

/-- A machine and the lines that its host has for it. -/
structure Dialogue where
  machine : Machine
  lines : List String

namespace Dialogue

/-- Answers a question with the next line, or tells that there is none. -/
def answer (d : Dialogue) : Dialogue :=
  match d.lines with
  | [] => { d with machine := d.machine.closeInput }
  | s :: rest => ⟨d.machine.reply s, rest⟩

/-- Runs a slice of the machine and answers it if the slice ends with a question. -/
def turn (budget : Nat) (d : Dialogue) : Dialogue × Event :=
  match d.machine.execute budget with
  | (m, .input prompt) => ({ d with machine := m }.answer, .input prompt)
  | (m, event) => ({ d with machine := m }, event)

/-- Takes turns with the given numbers of steps until there is nothing more to run, and gives the
events in order. -/
def run : List Nat → Dialogue → Dialogue × List Event
  | [], d => (d, [])
  | budget :: budgets, d =>
      match d.turn budget with
      | (d', event) =>
          if event.isFinal then (d', [event])
          else ((run budgets d').1, event :: (run budgets d').2)

/-- Do the events say that there is nothing more to run? -/
def finished (events : List Event) : Bool :=
  events.any Event.isFinal

@[simp] theorem finished_nil : finished [] = false := rfl

@[simp] theorem finished_cons (event : Event) (events : List Event) :
    finished (event :: events) = (event.isFinal || finished events) := rfl

/-- Two runs that a user cannot tell apart: they end alike and show the same events. -/
def Agree (r s : Dialogue × List Event) : Prop :=
  r.1 = s.1 ∧ Event.visible r.2 = Event.visible s.2

theorem turn_add (a b : Nat) (d : Dialogue) :
    d.turn (a + b) = if (d.turn a).2 = .running then (d.turn a).1.turn b else d.turn a := by
  unfold turn
  rw [Machine.execute_add]
  cases d.machine.execute a with
  | mk m event => cases event <;> simp

/-- A turn of no steps does nothing, or it is as good as any other. -/
theorem turn_zero (d : Dialogue) : d.turn 0 = (d, .running) ∨ d.turn 0 = d.turn 1 := by
  by_cases hphase : d.machine.phase = .running
  · left
    unfold turn
    rw [Machine.execute_of_running hphase]
    rfl
  · right
    unfold turn
    rw [(Machine.execute_of_not_running hphase 0 1).1]

theorem run_cons (budget : Nat) (budgets : List Nat) (d : Dialogue) :
    run (budget :: budgets) d =
      if (d.turn budget).2.isFinal then ((d.turn budget).1, [(d.turn budget).2])
      else ((run budgets (d.turn budget).1).1,
        (d.turn budget).2 :: (run budgets (d.turn budget).1).2) :=
  rfl

/-- A dialogue goes on where its first turns have left it, unless there is nothing more to run. -/
theorem run_append (budgets more : List Nat) (d : Dialogue) :
    run (budgets ++ more) d =
      if finished (run budgets d).2 then run budgets d
      else ((run more (run budgets d).1).1,
        (run budgets d).2 ++ (run more (run budgets d).1).2) := by
  induction budgets generalizing d with
  | nil => rfl
  | cons budget budgets ih =>
      rw [List.cons_append, run_cons, run_cons, ih]
      by_cases hfinal : (d.turn budget).2.isFinal = true
      · simp [hfinal]
      · by_cases hrest : finished (run budgets (d.turn budget).1).2 = true
        · simp [hfinal, hrest]
        · simp [hfinal, hrest]

theorem finished_run_append (budgets more : List Nat) (d : Dialogue) :
    finished (run (budgets ++ more) d).2 =
      (finished (run budgets d).2 || finished (run more (run budgets d).1).2) := by
  rw [run_append]
  by_cases hdone : finished (run budgets d).2 = true
  · rw [if_pos hdone, hdone, Bool.true_or]
  · rw [if_neg hdone]
    simp [finished]

theorem finished_visible (events : List Event) :
    finished (Event.visible events) = finished events := by
  induction events with
  | nil => rfl
  | cons event events ih =>
      cases event <;> simp_all [finished, Event.visible, Event.isFinal]

theorem Agree.finished_eq {r s : Dialogue × List Event} (h : Agree r s) :
    finished r.2 = finished s.2 := by
  rw [← finished_visible r.2, h.2, finished_visible]

/-- If two runs agree, so do they when both are continued by runs that agree. -/
theorem Agree.append {budgets budgets' more more' : List Nat} {d : Dialogue}
    (hfirst : Agree (run budgets d) (run budgets' d))
    (hmore : Agree (run more (run budgets d).1) (run more' (run budgets d).1)) :
    Agree (run (budgets ++ more) d) (run (budgets' ++ more') d) := by
  -- Either both runs have finished, or both go on from the same dialogue.
  rw [run_append, run_append, ← hfirst.finished_eq]
  by_cases hdone : finished (run budgets d).2 = true
  · simpa [hdone] using hfirst
  · rw [if_neg hdone, if_neg hdone, ← hfirst.1]
    refine ⟨hmore.1, ?_⟩
    have hevents := hfirst.2
    have hmoreEvents := hmore.2
    simp only [Event.visible, List.filter_append] at hevents hmoreEvents ⊢
    rw [hevents, hmoreEvents]

/-- A turn amounts to turns of one step each.  There are no more of them than it has steps, except
that a turn of no steps may amount to one. -/
theorem turn_amounts_to_units (budget : Nat) (d : Dialogue) :
    ∃ n, n ≤ budget + 1 ∧ (0 < budget → 0 < n) ∧
      Agree (run [budget] d) (run (List.replicate n 1) d) := by
  induction budget generalizing d with
  | zero =>
      rcases turn_zero d with hnothing | hany
      · exact ⟨0, by omega, by omega, by simp [run, hnothing, Event.isFinal],
          by simp [run, hnothing, Event.isFinal, Event.visible]⟩
      · refine ⟨1, by omega, by omega, ?_⟩
        rw [List.replicate_one, run_cons, run_cons, hany]
        exact ⟨rfl, rfl⟩
  | succ budget ih =>
      have hsplit := turn_add 1 budget d
      rw [Nat.add_comm 1 budget] at hsplit
      by_cases hrunning : (d.turn 1).2 = .running
      · -- The first step goes by unnoticed, and the others are a turn of their own.
        obtain ⟨n, hle, -, hagree⟩ := ih (d.turn 1).1
        rw [if_pos hrunning] at hsplit
        have hturn : run [budget + 1] d = run [budget] (d.turn 1).1 := by
          rw [run_cons, run_cons, hsplit]
        have hunits : run (1 :: List.replicate n 1) d =
            ((run (List.replicate n 1) (d.turn 1).1).1,
              .running :: (run (List.replicate n 1) (d.turn 1).1).2) := by
          rw [run_cons, hrunning]
          rfl
        refine ⟨n + 1, by omega, by omega, ?_⟩
        rw [hturn, List.replicate_succ, hunits]
        exact ⟨hagree.1, by simpa [Event.isFinal, Event.visible] using hagree.2⟩
      · -- The first step ends the turn, whatever is left of it.
        rw [if_neg hrunning] at hsplit
        refine ⟨1, by omega, by omega, ?_⟩
        rw [List.replicate_one, run_cons, run_cons, hsplit]
        exact ⟨rfl, rfl⟩

/-- A dialogue amounts to turns of one step each: not many more of them than it has steps, and, if
no turn is without steps, at least as many as it has turns. -/
theorem run_amounts_to_units (budgets : List Nat) (d : Dialogue) :
    ∃ n, n ≤ budgets.sum + budgets.length ∧
      ((∀ b ∈ budgets, 0 < b) → finished (run budgets d).2 = false → budgets.length ≤ n) ∧
      Agree (run budgets d) (run (List.replicate n 1) d) := by
  induction budgets generalizing d with
  | nil => exact ⟨0, by simp, by simp, rfl, rfl⟩
  | cons budget budgets ih =>
      obtain ⟨n, hle, hpos, hagree⟩ := turn_amounts_to_units budget d
      obtain ⟨k, hle', hmany, hagree'⟩ := ih (run [budget] d).1
      refine ⟨n + k, ?_, ?_, ?_⟩
      · simp only [List.sum_cons, List.length_cons]
        omega
      · intro hall hopen
        rw [← List.singleton_append, finished_run_append, Bool.or_eq_false_iff] at hopen
        have hn := hpos (hall budget List.mem_cons_self)
        have hk := hmany (fun b hb => hall b (List.mem_cons_of_mem _ hb)) hopen.2
        simp only [List.length_cons]
        omega
      · rw [← List.replicate_append_replicate]
        exact Agree.append hagree hagree'

/-- A dialogue in single steps goes on where a shorter one has stopped. -/
theorem run_units_of_le {n k : Nat} (hle : n ≤ k) (d : Dialogue) :
    Event.visible (run (List.replicate n 1) d).2 <+:
        Event.visible (run (List.replicate k 1) d).2 ∧
      (finished (run (List.replicate n 1) d).2 = true →
        run (List.replicate k 1) d = run (List.replicate n 1) d) := by
  obtain ⟨j, rfl⟩ := Nat.exists_eq_add_of_le hle
  rw [← List.replicate_append_replicate, run_append]
  constructor
  · split
    · exact List.prefix_refl _
    · simp only [Event.visible, List.filter_append]
      exact List.prefix_append _ _
  · intro hdone
    rw [if_pos hdone]

theorem run_units_eq_of_finished {n k : Nat} {d : Dialogue}
    (hn : finished (run (List.replicate n 1) d).2 = true)
    (hk : finished (run (List.replicate k 1) d).2 = true) :
    run (List.replicate n 1) d = run (List.replicate k 1) d := by
  rcases Nat.le_total n k with hle | hle
  · exact ((run_units_of_le hle d).2 hn).symm
  · exact (run_units_of_le hle d).2 hk

/-- **Slices cannot be told apart.**  A slice of `a + b` steps ends like one of `a` steps, followed
by one of `b` steps exactly if the first used up its steps.  So for every machine, whatever it has
loaded and however it is seeded, all lines to answer it with and any two ways to cut its run: the
visible events of one run continue those of the other; if both runs finish, they show the same
events and leave the same machine; and if one finishes, so does the other once it has taken enough
turns with steps in them. -/
theorem slicing_unobservable :
    (∀ (a b : Nat) (m : Machine),
      m.execute (a + b) =
        if (m.execute a).2 = .running then (m.execute a).1.execute b else m.execute a) ∧
    ∀ (d : Dialogue) (budgets budgets' : List Nat),
      (Event.visible (run budgets d).2 <+: Event.visible (run budgets' d).2 ∨
        Event.visible (run budgets' d).2 <+: Event.visible (run budgets d).2) ∧
      (finished (run budgets d).2 = true → finished (run budgets' d).2 = true →
        Event.visible (run budgets d).2 = Event.visible (run budgets' d).2 ∧
        (run budgets d).1.machine.pc = (run budgets' d).1.machine.pc ∧
        (run budgets d).1.machine.queue = (run budgets' d).1.machine.queue ∧
        (run budgets d).1 = (run budgets' d).1) ∧
      (finished (run budgets d).2 = true → (∀ b ∈ budgets', 0 < b) →
        budgets.sum + budgets.length ≤ budgets'.length →
        finished (run budgets' d).2 = true) := by
  refine ⟨Machine.execute_add, fun d budgets budgets' => ?_⟩
  -- The two runs are never compared with each other, only with their single steps.
  obtain ⟨n, hfew, -, hagree⟩ := run_amounts_to_units budgets d
  obtain ⟨k, -, hmany, hagree'⟩ := run_amounts_to_units budgets' d
  refine ⟨?_, ?_, ?_⟩
  · rw [hagree.2, hagree'.2]
    rcases Nat.le_total n k with hle | hle
    · exact Or.inl (run_units_of_le hle d).1
    · exact Or.inr (run_units_of_le hle d).1
  · intro hdone hdone'
    rw [hagree.finished_eq] at hdone
    rw [hagree'.finished_eq] at hdone'
    have hsame := run_units_eq_of_finished hdone hdone'
    have hend : (run budgets d).1 = (run budgets' d).1 := by
      rw [hagree.1, hagree'.1, hsame]
    exact ⟨by rw [hagree.2, hagree'.2, hsame], by rw [hend], by rw [hend], hend⟩
  · intro hdone hall hlong
    cases hopen : finished (run budgets' d).2 with
    | true => rfl
    | false =>
        -- Turns with steps in them add up to at least as many single steps as the first run took.
        have hle : n ≤ k := by
          have hk := hmany hall hopen
          omega
        rw [hagree.finished_eq] at hdone
        rw [hagree'.finished_eq, (run_units_of_le hle d).2 hdone, hdone] at hopen
        cases hopen

/-- A program that asks for a number, prints it and ends with it, and a user who types 12. -/
def echo : Dialogue where
  machine := (((Machine.fresh (.ticking 0)).seed 7).load
    ["READ \"n? \"", "PRINT", "PEEKLN", "RET"]).1
  lines := ["12"]

theorem slicing_unobservable_echo :
    finished (run [1, 1, 1, 1, 1] echo).2 = true ∧ finished (run [3, 0, 2, 9, 2] echo).2 = true ∧
      Event.visible (run [3, 0, 2, 9, 2] echo).2 =
        [.input "n? ", .print "\n", .print "12\n", .exit 12] ∧
      Event.visible (run [1, 1, 1, 1, 1] echo).2 = Event.visible (run [3, 0, 2, 9, 2] echo).2 :=
  ⟨by decide +kernel, by decide +kernel, by decide +kernel,
    ((slicing_unobservable.2 echo _ _).2.1 (by decide +kernel) (by decide +kernel)).1⟩

end Dialogue
end Fifo
