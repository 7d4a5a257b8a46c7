import Fifo.Proofs.Machine.History
import Fifo.Proofs.Machine.Slicing

/-!
# Halting, interrupting and loading

A machine that has stopped does nothing until it is given another program: `call_of_stopped` says
what becomes of it by a call, and `halted_of_stopped` by a history.  One that has not stopped does
so only with a last event (`execute_live`).  An interrupt stops a machine for sure, since no call
between the interrupt and the next slice takes it back (`InterruptedAt.call`).  And the only way on,
loading a program, forgets everything but where random words come from (`load_eq_of_supply_eq`).
-/

namespace Fifo
namespace Call

def isLoad : Call → Bool
  | .load _ => true
  | .seed _ | .interrupt | .reply _ | .closeInput | .execute _ => false

/-- Does the call neither load a program nor run one? -/
def isAside : Call → Bool
  | .seed _ | .interrupt | .reply _ | .closeInput => true
  | .load _ | .execute _ => false

end Call

namespace Machine

/-- What a machine is that has loaded a program: of what it was before, the supply of random words
is left. -/
theorem load_of_ok {source : List String} {p : Program} (h : Program.ofSource source = .ok p)
    (m : Machine) : m.load source = (⟨p, ⟨.empty, m.supply⟩, 0, .running⟩, .ok ()) := by
  rw [load, h]
  rfl

theorem load_of_error {source : List String} {f : Fault} (h : Program.ofSource source = .error f)
    (m : Machine) : m.load source = (m.reset, .error f) := by
  rw [load, h]

/-- A load that fails only resets the machine. -/
theorem load_eq_reset {source : List String} {m : Machine} {f : Fault}
    (h : (m.load source).2 = .error f) : (m.load source).1 = m.reset := by
  cases hsource : Program.ofSource source with
  | error g => rw [load_of_error hsource]
  | ok p =>
      rw [load_of_ok hsource] at h
      cases h

/-- Two machines that load a program are the same afterwards, if they had the same supply of random
words. -/
theorem load_eq_of_supply_eq {source : List String} {m n : Machine}
    (hsupply : m.supply = n.supply) (h : (m.load source).2 = .ok ()) :
    m.load source = n.load source := by
  cases hsource : Program.ofSource source with
  | error f =>
      rw [load_of_error hsource] at h
      cases h
  | ok p =>
      rw [load_of_ok hsource, load_of_ok hsource, hsupply]

theorem Stepped.stopped_of_isFinal {m m' : Machine} {event : Event}
    (h : Stepped m m' (some event)) (hfinal : event.isFinal = true) : m'.phase = .stopped := by
  cases h with
  | ended hend => rfl
  | undecoded f hpc hline => rfl
  | failed s memory f hpc hline hdone => rfl
  | printed s memory text hpc hline hdone htext => cases hfinal
  | asked s memory prompt hpc hline hdone => cases hfinal
  | exited s memory value hpc hline hdone => rfl

/-- A slice that ends the program leaves a machine that has stopped. -/
theorem stopped_of_isFinal {budget : Nat} {m m' : Machine} {event : Event}
    (h : m.execute budget = (m', event)) (hfinal : event.isFinal = true) :
    m'.phase = .stopped := by
  cases sliced_of_execute h with
  | stopped hphase => exact hphase
  | waiting prompt hphase => cases hfinal
  | refused hphase => rfl
  | interrupted hphase => rfl
  | usedUp m' hphase hsteps => cases hfinal
  | ended start m' event done hphase hlt hbefore hstep =>
      exact (stepped_of_step hstep).stopped_of_isFinal hfinal

theorem Stepped.live {m m' : Machine} {event : Event} (h : Stepped m m' (some event))
    (hphase : m.phase = .running) :
    event ≠ .stopped ∧ (event.isFinal = false → m'.phase ≠ .stopped) := by
  cases h <;> simp [Event.isFinal, hphase]

/-- A machine that has not stopped says so, and stops only with a last event. -/
theorem execute_live {m m' : Machine} {event : Event} {budget : Nat} (hm : m.phase ≠ .stopped)
    (h : m.execute budget = (m', event)) :
    event ≠ .stopped ∧ (event.isFinal = false → m'.phase ≠ .stopped) := by
  cases sliced_of_execute h with
  | stopped hphase => exact absurd hphase hm
  | waiting prompt hphase => simp [hphase]
  | refused hphase => simp [Event.isFinal]
  | interrupted hphase => simp [Event.isFinal]
  | usedUp m' hphase hsteps =>
      have hrunning := (phase_eq_of_steps_none hsteps).trans hphase
      simp [hrunning]
  | ended start m' event done hphase hlt hbefore hstep =>
      have hrunning := (phase_eq_of_steps_none hbefore).trans hphase
      exact (stepped_of_step hstep).live hrunning

theorem reply_live {m : Machine} (hm : m.phase ≠ .stopped) (s : String) :
    (m.reply s).phase ≠ .stopped := by
  unfold reply
  split
  · simp
  · exact hm

theorem closeInput_live {m : Machine} (hm : m.phase ≠ .stopped) :
    m.closeInput.phase ≠ .stopped := by
  unfold closeInput
  split
  · simp
  · exact hm

/-- What a call does to a machine that has stopped, unless it loads a program. -/
theorem call_of_stopped {m : Machine} {c : Call} (hm : m.phase = .stopped)
    (hc : (Moment.mk m c).response ≠ .loaded) :
    m.call c = match c with
      | .load _ => m.reset
      | .seed s => m.seed s
      | .interrupt | .reply _ | .closeInput | .execute _ => m := by
  cases c with
  | load source =>
      cases hresult : (m.load source).2 with
      | error f => exact load_eq_reset hresult
      | ok u => simp [Moment.response, hresult] at hc
  | seed s => rfl
  | interrupt => simp only [call, interrupt, hm]
  | reply s => simp only [call, reply, hm]
  | closeInput => simp only [call, closeInput, hm]
  | execute budget => simp only [call, execute, hm]

/-- The machine has stopped, and has the given program. -/
structure Halted (p : Program) (m : Machine) : Prop where
  phase_eq : m.phase = .stopped
  program_eq : m.program = p

theorem Halted.call {p : Program} {m : Machine} {c : Call} (hm : Halted p m)
    (hc : (Moment.mk m c).response ≠ .loaded) : Halted p (m.call c) := by
  rw [call_of_stopped hm.phase_eq hc]
  cases c with
  | load source => exact ⟨rfl, hm.program_eq⟩
  | seed s => exact ⟨hm.phase_eq, hm.program_eq⟩
  | interrupt => exact hm
  | reply s => exact hm
  | closeInput => exact hm
  | execute budget => exact hm

/-- A machine that has stopped stays so, with the program that it has, until one is loaded. -/
theorem halted_of_stopped {m : Machine} {calls : List Call} (hm : m.phase = .stopped)
    (hall : ∀ t ∈ m.trace calls, t.response ≠ .loaded) :
    Halted m.program (m.after calls) ∧ ∀ t ∈ m.trace calls, Halted m.program t.machine :=
  trace_induction (fun _ hc ht => ht.call hc) ⟨hm, rfl⟩ hall

/-- Slices of a machine that has stopped say so, until a program is loaded. -/
theorem response_of_stopped {m : Machine} {calls : List Call} (hm : m.phase = .stopped)
    (hall : ∀ t ∈ m.trace calls, t.response ≠ .loaded) {t : Moment} (ht : t ∈ m.trace calls)
    {budget : Nat} (hcall : t.call = .execute budget) : t.response = .event .stopped := by
  have hphase := ((halted_of_stopped hm hall).2 t ht).phase_eq
  obtain ⟨n, c⟩ := t
  obtain rfl : c = .execute budget := hcall
  simp only at hphase
  simp only [Moment.response, execute, hphase]

/-- Until a program is loaded, the place and the queue of a machine that has stopped change only by
attempts to load one. -/
theorem place_of_stopped {m : Machine} {calls : List Call} (hm : m.phase = .stopped)
    (hall : ∀ t ∈ m.trace calls, t.response ≠ .loaded) :
    (m.after calls).pc = (if calls.any Call.isLoad then 0 else m.pc) ∧
      (m.after calls).queue = if calls.any Call.isLoad then .empty else m.queue := by
  induction calls generalizing m with
  | nil => exact ⟨rfl, rfl⟩
  | cons c calls ih =>
      rw [trace_cons, List.forall_mem_cons] at hall
      have hcall := call_of_stopped hm hall.1
      have hhalted : Halted m.program (m.call c) := Halted.call ⟨hm, rfl⟩ hall.1
      obtain ⟨hpc, hqueue⟩ := ih hhalted.phase_eq hall.2
      rw [after_cons, hpc, hqueue, hcall, List.any_cons]
      cases c with
      | load source => simp [Call.isLoad, reset, queue]
      | seed s => exact ⟨rfl, rfl⟩
      | interrupt => exact ⟨rfl, rfl⟩
      | reply s => exact ⟨rfl, rfl⟩
      | closeInput => exact ⟨rfl, rfl⟩
      | execute budget => exact ⟨rfl, rfl⟩

/-- The machine has been interrupted where another machine was, and has the same values. -/
structure InterruptedAt (m n : Machine) : Prop where
  phase_eq : n.phase = .interrupted
  program_eq : n.program = m.program
  pc_eq : n.pc = m.pc
  queue_eq : n.queue = m.queue

theorem interrupt_of_not_stopped {m : Machine} (hm : m.phase ≠ .stopped) :
    m.interrupt = { m with phase := .interrupted } := by
  unfold interrupt
  cases hphase : m.phase with
  | stopped => exact absurd hphase hm
  | running => rfl
  | waiting prompt => rfl
  | inputClosed => rfl
  | interrupted => rfl

theorem interrupt_of_stopped {m : Machine} (hm : m.phase = .stopped) : m.interrupt = m := by
  rw [interrupt, hm]

/-- Between an interrupt and the next slice, no call takes the interrupt back or touches the queue:
a machine that has been interrupted no longer waits for a line. -/
theorem InterruptedAt.call {m n : Machine} {c : Call} (hn : m.InterruptedAt n)
    (hc : c.isAside = true) : m.InterruptedAt (n.call c) := by
  cases c with
  | load source => cases hc
  | seed s => exact ⟨hn.phase_eq, hn.program_eq, hn.pc_eq, hn.queue_eq⟩
  | interrupt =>
      have hsame : n.interrupt = { n with phase := .interrupted } :=
        interrupt_of_not_stopped (by simp [hn.phase_eq])
      rw [Machine.call, hsame]
      exact ⟨rfl, hn.program_eq, hn.pc_eq, hn.queue_eq⟩
  | reply s =>
      have hsame : n.reply s = n := by rw [reply, hn.phase_eq]
      rw [Machine.call, hsame]
      exact hn
  | closeInput =>
      have hsame : n.closeInput = n := by rw [closeInput, hn.phase_eq]
      rw [Machine.call, hsame]
      exact hn
  | execute budget => cases hc

theorem InterruptedAt.after {m n : Machine} {calls : List Call} (hn : m.InterruptedAt n)
    (hcalls : ∀ c ∈ calls, c.isAside = true) : m.InterruptedAt (n.after calls) := by
  have hall : ∀ t ∈ n.trace calls, t.call.isAside = true :=
    fun t ht => hcalls t.call (call_mem_of_mem_trace ht)
  exact (trace_induction (fun _ hc ht => ht.call hc) hn hall).1

/-- **An interrupt cannot be lost.**  Once a machine that has not stopped is interrupted, its host
may answer, refuse a line, interrupt again and fix the seed as it likes: the next slice, be it of no
steps at all, ends with the interrupt, placed in the line that the machine was at.  The machine has
then stopped there, with the values it had when it was interrupted, and every later slice says so
until a program is loaded.  To a machine that has stopped, an interrupt does nothing. -/
theorem interrupt_is_not_lost :
    (∀ (m : Machine) (meanwhile : List Call) (budget : Nat), m.phase ≠ .stopped →
      (∀ c ∈ meanwhile, c.isAside = true) →
      ∃ m', (m.interrupt.after meanwhile).execute budget =
          (m', .fault ((Fault.of .interrupted).inLine m.pc)) ∧
        m'.queue = m.queue ∧ m'.pc = m.pc ∧ m'.program = m.program ∧
        ∀ later : List Call, (∀ t ∈ m'.trace later, t.response ≠ .loaded) →
          ∀ t ∈ m'.trace later, ∀ budget, t.call = .execute budget →
            t.response = .event .stopped) ∧
    ∀ m : Machine, m.phase = .stopped → m.interrupt = m := by
  refine ⟨fun m meanwhile budget hm hmeanwhile => ?_, fun m hm => interrupt_of_stopped hm⟩
  have hstart : m.InterruptedAt m.interrupt := by
    rw [interrupt_of_not_stopped hm]
    exact ⟨rfl, rfl, rfl, rfl⟩
  have hlast := hstart.after hmeanwhile
  refine ⟨{ m.interrupt.after meanwhile with phase := .stopped }, ?_, hlast.queue_eq, hlast.pc_eq,
    hlast.program_eq, ?_⟩
  · rw [execute, hlast.phase_eq, ← hlast.pc_eq]
    rfl
  · intro later hall t ht budget hcall
    exact response_of_stopped rfl hall ht hcall

/-- A machine that waits for a line, with one value in its queue. -/
def waitingForLine : Machine :=
  (fresh (.ticking 0)).after [.load ["PUSH 1", "READ", "POP"], .execute 9]

theorem interrupt_is_not_lost_waitingForLine :
    waitingForLine.phase = .waiting "" ∧
      ∃ m', (waitingForLine.interrupt.after
            [.reply "5", .closeInput, .seed 3, .interrupt]).execute 0 =
          (m', .fault ((Fault.of .interrupted).inLine waitingForLine.pc)) ∧
        m'.queue = waitingForLine.queue ∧ m'.pc = 1 ∧
        (Moment.mk (m'.reply "x") (.execute 4)).response = .event .stopped := by
  have hphase : waitingForLine.phase = .waiting "" := by decide +kernel
  have hpc : waitingForLine.pc = 1 := by decide +kernel
  obtain ⟨m', hbreak, hqueue, hplace, -, hlater⟩ :=
    interrupt_is_not_lost.1 waitingForLine [.reply "5", .closeInput, .seed 3, .interrupt] 0
      (by simp [hphase]) (by decide)
  refine ⟨hphase, m', hbreak, hqueue, hplace.trans hpc, ?_⟩
  have hsilent : ∀ t ∈ m'.trace [.reply "x", .execute 4], t.response ≠ .loaded := by
    simp [Moment.response]
  exact hlater _ hsilent _ (.tail _ (.head _)) 4 rfl

/-- **Halting is final, and loading forgets the past.**  A machine that loads a program is what a
fresh machine with its generator, or with its clock if it has none, becomes by loading it, so
nothing later depends on what came before.  A machine that refuses a program has stopped at the
first line of the program it had, with no values and the same generator or clock.  A machine has
stopped when it is fresh, and when a slice has ended its program.  Until a program is loaded, one
that has stopped answers every slice by saying so and keeps its program, and it keeps its place and
its queue too unless it refuses a program. -/
theorem halting_is_final :
    (∀ (m : Machine) (source : List String) (clock : Random.Clock), (m.load source).2 = .ok () →
      m.load source = { fresh clock with memory.supply := m.supply }.load source ∧
      ∀ n : Machine, n.supply = m.supply → ∀ later : List Call,
        (m.load source).1.trace later = (n.load source).1.trace later) ∧
    (∀ (m : Machine) (source : List String) (f : Fault), (m.load source).2 = .error f →
      (m.load source).1.queue = .empty ∧ (m.load source).1.pc = 0 ∧
      (m.load source).1.program = m.program ∧ (m.load source).1.supply = m.supply ∧
      (m.load source).1.phase = .stopped) ∧
    (∀ clock : Random.Clock, (fresh clock).phase = .stopped) ∧
    (∀ (budget : Nat) (m m' : Machine) (event : Event), m.execute budget = (m', event) →
      event.isFinal = true → m'.phase = .stopped) ∧
    ∀ (m : Machine) (calls : List Call), m.phase = .stopped →
      (∀ t ∈ m.trace calls, t.response ≠ .loaded) →
      (∀ t ∈ m.trace calls, ∀ budget, t.call = .execute budget →
        t.response = .event .stopped) ∧
      (m.after calls).phase = .stopped ∧
      (m.after calls).program = m.program ∧
      (m.after calls).pc = (if calls.any Call.isLoad then 0 else m.pc) ∧
      (m.after calls).queue = if calls.any Call.isLoad then .empty else m.queue := by
  refine ⟨fun m source clock hok => ?_, fun m source f herror => ?_, fun _ => rfl,
    fun budget m m' event => stopped_of_isFinal, fun m calls hm hall => ?_⟩
  · refine ⟨load_eq_of_supply_eq rfl hok, fun n hsupply later => ?_⟩
    rw [load_eq_of_supply_eq hsupply.symm hok]
  · rw [load_eq_reset herror]
    exact ⟨rfl, rfl, rfl, rfl, rfl⟩
  · obtain ⟨hhalted, -⟩ := halted_of_stopped hm hall
    exact ⟨fun t ht budget hcall => response_of_stopped hm hall ht hcall, hhalted.phase_eq,
      hhalted.program_eq, place_of_stopped hm hall⟩

/-- A machine whose program has ended with the value 5 and left one value. -/
def ended : Machine :=
  (fresh (.ticking 0)).after [.load ["PUSH 5", "PUSH 6", "RET"], .execute 9]

/-- What a host may do to a machine without starting it again; the program it loads has a bar too
few. -/
def unavailing : List Call :=
  [.interrupt, .execute 3, .reply "1", .seed 4, .load ["|TOP"], .execute 1]

theorem halting_is_final_ended :
    ended.pc = 2 ∧ ended.queue.toList = [.integer 6] ∧
      (ended.after unavailing).program = ended.program ∧ (ended.after unavailing).pc = 0 ∧
      (ended.after unavailing).queue = .empty ∧
      (Moment.mk ended (.execute 3)).response = .event .stopped ∧
      ended.load ["RET"] =
        { fresh (.ticking 8) with memory.supply := ended.supply }.load ["RET"] := by
  obtain ⟨hload, -, -, hends, hstays⟩ := halting_is_final
  have hphase : ended.phase = .stopped :=
    hends 9 ((fresh (.ticking 0)).load ["PUSH 5", "PUSH 6", "RET"]).1 ended (.exit 5) rfl rfl
  obtain ⟨hslices, -, hprogram, hpc, hqueue⟩ := hstays ended unavailing hphase (by decide +kernel)
  exact ⟨by decide +kernel, by decide +kernel, hprogram, hpc, hqueue,
    hslices _ (.tail _ (.head _)) 3 rfl, (hload ended ["RET"] (.ticking 8) rfl).1⟩

end Machine
end Fifo
