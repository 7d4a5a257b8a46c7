import Fifo.Machine

/-!
# Histories

All that a host can do with a machine, in any order.

A history is taken apart into its moments (`trace`): each of its calls with the machine that it was
made to, from which the response to the call follows.  What a call preserves holds at every moment
of a history and after it, also if only calls of some sort preserve it and the history has no others
(`trace_induction`).
-/

namespace Fifo

/-- What a host can ask of a machine. -/
inductive Call where
  | load (source : List String)
  | seed (s : UInt64)
  | interrupt
  | reply (s : String)
  | closeInput
  | execute (budget : Nat)
  deriving DecidableEq

/-- What a host learns from a call. -/
inductive Response where
  /-- There is nothing to learn. -/
  | done
  | loaded
  /-- The program was not loaded, since its labels are at fault. -/
  | refused (f : Fault)
  | event (e : Event)
  deriving DecidableEq

/-- A call, and the machine that it is made to. -/
structure Moment where
  machine : Machine
  call : Call

namespace Machine

/-- The machine after a call. -/
def call (m : Machine) : Call → Machine
  | .load source => (m.load source).1
  | .seed s => m.seed s
  | .interrupt => m.interrupt
  | .reply s => m.reply s
  | .closeInput => m.closeInput
  | .execute budget => (m.execute budget).1

/-- The machine after a history of calls. -/
def after (m : Machine) (calls : List Call) : Machine :=
  calls.foldl call m

/-- The moments of a history of calls. -/
def trace (m : Machine) : List Call → List Moment
  | [] => []
  | c :: calls => ⟨m, c⟩ :: (m.call c).trace calls

/-- The machines that steps are performed on, in order, until there is an event or none are
left. -/
def performing : Nat → Machine → List Machine
  | 0, _ => []
  | budget + 1, m =>
      match m.step with
      | (_, some _) => [m]
      | (m', none) => m :: performing budget m'

end Machine

namespace Moment

/-- The machine that the call leaves. -/
def next (t : Moment) : Machine :=
  t.machine.call t.call

def response (t : Moment) : Response :=
  match t.call with
  | .load source =>
      match (t.machine.load source).2 with
      | .ok () => .loaded
      | .error f => .refused f
  | .execute budget => .event (t.machine.execute budget).2
  | .seed _ | .interrupt | .reply _ | .closeInput => .done

/-- The machines that the call performs steps on, in order: those of a slice, if there is more to
run. -/
def performing (t : Moment) : List Machine :=
  match t.call, t.machine.phase with
  | .execute budget, .running => Machine.performing budget t.machine
  | _, _ => []

end Moment

namespace Machine

@[simp] theorem after_nil (m : Machine) : m.after [] = m := rfl

@[simp] theorem after_cons (m : Machine) (c : Call) (calls : List Call) :
    m.after (c :: calls) = (m.call c).after calls := rfl

@[simp] theorem trace_nil (m : Machine) : m.trace [] = [] := rfl

@[simp] theorem trace_cons (m : Machine) (c : Call) (calls : List Call) :
    m.trace (c :: calls) = ⟨m, c⟩ :: (m.call c).trace calls := rfl

theorem call_mem_of_mem_trace {m : Machine} {calls : List Call} {t : Moment}
    (h : t ∈ m.trace calls) : t.call ∈ calls := by
  induction calls generalizing m with
  | nil => cases h
  | cons c calls ih =>
      rcases List.mem_cons.mp h with rfl | hrest
      · exact List.mem_cons_self
      · exact List.mem_cons_of_mem c (ih hrest)

/-- What holds at first and is preserved by calls of some sort holds after every history of such
calls, and at each moment of it. -/
theorem trace_induction {Holds : Machine → Prop} {Allowed : Moment → Prop}
    (hcall : ∀ t : Moment, Allowed t → Holds t.machine → Holds t.next)
    {m : Machine} (hm : Holds m) {calls : List Call} (hall : ∀ t ∈ m.trace calls, Allowed t) :
    Holds (m.after calls) ∧ ∀ t ∈ m.trace calls, Holds t.machine := by
  induction calls generalizing m with
  | nil => exact ⟨hm, by simp⟩
  | cons c calls ih =>
      rw [trace_cons, List.forall_mem_cons] at hall
      obtain ⟨hafter, htrace⟩ := ih (hcall ⟨m, c⟩ hall.1 hm) hall.2
      refine ⟨hafter, ?_⟩
      rw [trace_cons, List.forall_mem_cons]
      exact ⟨hm, htrace⟩

/-- What holds at first and is preserved by every call holds after every history. -/
theorem after_induction {Holds : Machine → Prop}
    (hcall : ∀ (m : Machine) (c : Call), Holds m → Holds (m.call c))
    {m : Machine} (hm : Holds m) (calls : List Call) : Holds (m.after calls) := by
  have hall : ∀ t ∈ m.trace calls, True := fun _ _ => trivial
  exact (trace_induction (fun t _ => hcall t.machine t.call) hm hall).1

end Machine
end Fifo
