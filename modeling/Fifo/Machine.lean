import Fifo.Machine.Memory

/-!
# The machine

A machine runs one program in slices. A slice performs at most a given number of steps and ends
early with an event whenever the host has something to do: print a text, ask for a line, or learn
that the program has ended. The machine does no input or output of its own.

Between slices the host may load another program, answer or refuse a line that was asked for, fix
the seed of the generator, or interrupt the program.
-/

namespace Fifo

/-- What a machine is doing between two slices. -/
inductive Phase where
  /-- There is nothing to run. -/
  | stopped
  /-- There is more to run. -/
  | running
  /-- A line was asked for, with this prompt. -/
  | waiting (prompt : String)
  /-- A line was asked for and will not come. -/
  | inputClosed
  /-- The user has interrupted the program. -/
  | interrupted
  deriving DecidableEq

/-- What a slice ends with. -/
inductive Event where
  /-- The program has ended, or there was none. -/
  | stopped
  /-- The steps are used up; there is more to run. -/
  | running
  | print (text : String)
  /-- Show a prompt and ask for a line. -/
  | input (prompt : String)
  | exit (value : Int64)
  | fault (f : Fault)
  deriving DecidableEq

/-- A program, the memory it works on, the address of its next line, and what it is doing. -/
structure Machine where
  program : Program
  memory : Memory
  pc : Nat
  phase : Phase

namespace Machine

/-- A machine without a program. Until the host gives a seed, the clock seeds each shuffle. -/
def fresh (clock : Random.Clock) : Machine :=
  ⟨.empty, ⟨.empty, .unseeded clock⟩, 0, .stopped⟩

def queue (m : Machine) : Queue Value :=
  m.memory.queue

def supply (m : Machine) : Random.Supply :=
  m.memory.supply

/-- The generator of the machine, if the host has given a seed. -/
def generator (m : Machine) : Option Random.Generator :=
  m.supply.generator?

/-- Empties the queue and stops at the first line. -/
def reset (m : Machine) : Machine :=
  { m with memory.queue := .empty, pc := 0, phase := .stopped }

/-- Replaces the program and makes ready to run it. If its labels are at fault, the machine keeps
the program it had and is stopped. -/
def load (source : List String) (m : Machine) : Machine × Except Fault Unit :=
  match Program.ofSource source with
  | .ok p => ({ m.reset with program := p, phase := .running }, .ok ())
  | .error f => (m.reset, .error f)

def seed (s : UInt64) (m : Machine) : Machine :=
  { m with memory.supply := .seeded (.ofSeed s) }

/-- Interrupts the program, if there is one to interrupt. -/
def interrupt (m : Machine) : Machine :=
  match m.phase with
  | .stopped => m
  | _ => { m with phase := .interrupted }

/-- Answers with a line, if one was asked for. -/
def reply (s : String) (m : Machine) : Machine :=
  match m.phase with
  | .waiting _ =>
      { m with
        memory.queue := m.memory.queue.push (.ofReply s), pc := m.pc + 1, phase := .running }
  | _ => m

/-- Refuses the line that was asked for: there is no more input. -/
def closeInput (m : Machine) : Machine :=
  match m.phase with
  | .waiting _ => { m with phase := .inputClosed }
  | _ => m

/-- Stops with a fault, which is placed in the current line. -/
def fail (m : Machine) (f : Fault) : Machine × Event :=
  ({ m with phase := .stopped }, .fault (f.inLine m.pc))

def halt (m : Machine) (value : Int64) : Machine × Event :=
  ({ m with phase := .stopped }, .exit value)

def advance (m : Machine) : Machine :=
  { m with pc := m.pc + 1 }

/-- Does what a statement asks for. Printing an empty text is no event. -/
def follow (m : Machine) : Outcome → Machine × Option Event
  | .next => (m.advance, none)
  | .jump address => ({ m with pc := address }, none)
  | .print text => (m.advance, if text.isEmpty then none else some (.print text))
  | .input prompt => ({ m with phase := .waiting prompt }, some (.input prompt))
  | .exit value => ((m.halt value).1, some (m.halt value).2)

def perform (m : Machine) (s : Statement) : Machine × Option Event :=
  match m.memory.perform m.program s with
  | (memory, .ok outcome) => { m with memory := memory }.follow outcome
  | (memory, .error f) =>
      let failed := { m with memory := memory }.fail f
      (failed.1, some failed.2)

/-- Performs the current line. Behind the last line the program ends with the value 0. -/
def step (m : Machine) : Machine × Option Event :=
  if m.pc < m.program.size then
    match m.program.statementAt m.pc with
    | .ok (some s) => m.perform s
    | .ok none => (m.advance, none)
    | .error f => ((m.fail f).1, some (m.fail f).2)
  else ((m.halt 0).1, some (m.halt 0).2)

/-- Performs steps until there is an event, or none are left. -/
def steps : Nat → Machine → Machine × Option Event
  | 0, m => (m, none)
  | budget + 1, m =>
      match m.step with
      | (m', some event) => (m', some event)
      | (m', none) => steps budget m'

/-- Runs one slice of at most `budget` steps. -/
def execute (budget : Nat) (m : Machine) : Machine × Event :=
  match m.phase with
  | .stopped => (m, .stopped)
  | .running =>
      let done := steps budget m
      (done.1, done.2.getD .running)
  | .waiting prompt => (m, .input prompt)
  | .inputClosed => m.fail (.of .invalidRead)
  | .interrupted => m.fail (.of .interrupted)

/-- Steps may be performed in two goes: the second goes on where the first met no event. -/
theorem steps_add (a b : Nat) (m : Machine) :
    steps (a + b) m = match steps a m with
      | (m', none) => steps b m'
      | (m', some event) => (m', some event) := by
  induction a generalizing m with
  | zero => simp [steps]
  | succ a ih =>
      rw [Nat.succ_add, steps, steps]
      cases m.step with
      | mk m' event =>
          cases event with
          | none => exact ih m'
          | some event => rfl

end Machine
end Fifo
