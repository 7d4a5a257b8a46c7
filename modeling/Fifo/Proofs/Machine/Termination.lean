import Fifo.Proofs.Machine.Halting
import Fifo.Proofs.Machine.Replies

/-!
# Programs without a way back

A program whose jumps all go forward comes to an end: every step leads on, past a line that stands
for nothing, prints an empty text, jumps or does not jump, and an answer to a question leads on too,
although no step is performed.

Two measures say so.  The `frontier` of a machine is the first line that it can still perform; what
a call performs lies between the frontiers before and after it, in ascending order (`rises_call`),
and so does what a history performs (`rises_visits`).  What is `remaining` to a machine becomes less
with every step (`Stepped.remaining_lt`) and with every slice that finds no question pending
(`remaining_call`), so a history can have only so many of them before the program has ended
(`stopped_or_remaining`).
-/

namespace Fifo
namespace Program

/-- The line that the jump at an address goes to.  There is none if no jump stands there, or if its
target stands for no line. -/
def destination? (p : Program) (address : Nat) : Option Nat :=
  match p.statementAt address with
  | .ok (some (.goto target)) | .ok (some (.branch _ target)) => (p.resolve target).toOption
  | _ => none

/-- All jumps of the program go forward. -/
def Forward (p : Program) : Prop :=
  ∀ address destination, p.destination? address = some destination → address < destination

theorem lt_size_of_destination? {p : Program} {address destination : Nat}
    (h : p.destination? address = some destination) : address < p.size := by
  refine Nat.lt_of_not_le fun hend => ?_
  rw [destination?, statementAt_eq, line?, Array.getElem?_eq_none hend] at h
  cases h

instance (p : Program) : Decidable p.Forward :=
  decidable_of_iff (∀ address < p.size, ∀ destination ∈ p.destination? address,
      address < destination)
    ⟨fun h address destination hd => h address (lt_size_of_destination? hd) destination hd,
      fun h address _ destination hd => h address destination hd⟩

/-- A jump that is made goes forward. -/
theorem Forward.lt_of_jump {p : Program} (hp : p.Forward) {address destination : Nat}
    {s : Statement} {m : Memory} (hline : p.statementAt address = .ok (some s))
    (hjump : (m.perform p s).2 = .ok (.jump destination)) : address < destination := by
  obtain ⟨target, hs, hres⟩ := Memory.resolve_of_jump hjump
  refine hp address destination ?_
  rcases hs with rfl | ⟨relation, rfl⟩
  · rw [destination?, hline]
    simp only [hres, Except.toOption]
  · rw [destination?, hline]
    simp only [hres, Except.toOption]

end Program

/-- Numbers in ascending order, from the first bound on and below the second one. -/
inductive Rises : Nat → List Nat → Nat → Prop
  | nil {low high : Nat} (hle : low ≤ high) : Rises low [] high
  | cons {low high a : Nat} {as : List Nat} (hle : low ≤ a) (hrest : Rises (a + 1) as high) :
      Rises low (a :: as) high

namespace Rises

theorem weaken {low low' high : Nat} {as : List Nat} (h : Rises low as high) (hle : low' ≤ low) :
    Rises low' as high := by
  cases h with
  | nil hbounds => exact .nil (by omega)
  | cons hfirst hrest => exact .cons (by omega) hrest

theorem append {low middle high : Nat} {as bs : List Nat} (h : Rises low as middle)
    (h' : Rises middle bs high) : Rises low (as ++ bs) high := by
  induction h with
  | nil hle => exact h'.weaken hle
  | cons hle _ ih => exact .cons hle (ih h')

theorem add_length_le {low high : Nat} {as : List Nat} (h : Rises low as high) :
    low + as.length ≤ high := by
  induction h with
  | nil hle => simpa using hle
  | cons hle _ ih =>
      rw [List.length_cons]
      omega

theorem mem_bounds {low high a : Nat} {as : List Nat} (h : Rises low as high) (ha : a ∈ as) :
    low ≤ a ∧ a < high := by
  induction h with
  | nil hle => cases ha
  | cons hle hrest ih =>
      rcases List.mem_cons.mp ha with rfl | hmem
      · have hlength := hrest.add_length_le
        omega
      · have hbounds := ih hmem
        omega

theorem pairwise {low high : Nat} {as : List Nat} (h : Rises low as high) :
    as.Pairwise (· < ·) := by
  induction h with
  | nil hle => exact .nil
  | cons hle hrest ih => exact List.pairwise_cons.mpr ⟨fun b hb => (hrest.mem_bounds hb).1, ih⟩

end Rises

/-- Does the response tell that the program has ended, by itself or with a fault? -/
def Response.isEnd : Response → Bool
  | .event (.exit _) | .event (.fault _) => true
  | _ => false

/-- Is the call a slice of at least one step, made while no line is asked for? -/
def Moment.isDriving (t : Moment) : Bool :=
  match t.call with
  | .execute budget => 0 < budget && !t.machine.isWaiting
  | .load _ | .seed _ | .interrupt | .reply _ | .closeInput => false

namespace Machine

/-- The first address that a machine can still perform a step at.  A machine that does not run has
performed the line that it is at. -/
def frontier (m : Machine) : Nat :=
  match m.phase with
  | .running => m.pc
  | .stopped | .waiting _ | .inputClosed | .interrupted => m.pc + 1

/-- How many slices can follow, at most, that find no question pending: one for each line that is
left, and one that ends the program. -/
def remaining (m : Machine) : Nat :=
  match m.phase with
  | .running => m.program.size - m.pc + 1
  | .waiting _ => m.program.size - m.pc
  | .inputClosed | .interrupted => 1
  | .stopped => 0

/-- The addresses that a history performs steps at, in order.  The end of the program counts as
one, where the step is to end. -/
def visits (m : Machine) (calls : List Call) : List Nat :=
  ((m.trace calls).flatMap Moment.performing).map pc

/-- The number of slices of at least one step that a history makes while no line is asked for. -/
def drives (m : Machine) (calls : List Call) : Nat :=
  (m.trace calls).countP Moment.isDriving

theorem Stepped.program_eq {m m' : Machine} {event : Option Event} (h : Stepped m m' event) :
    m'.program = m.program := by
  cases h <;> rfl

theorem program_steps (budget : Nat) (m : Machine) : (steps budget m).1.program = m.program := by
  induction budget generalizing m with
  | zero => rfl
  | succ budget ih =>
      rw [steps]
      cases hstep : m.step with
      | mk m' event =>
          have hprogram := (stepped_of_step hstep).program_eq
          cases event with
          | none => exact (ih m').trans hprogram
          | some event => exact hprogram

/-- A machine keeps its program until it loads one. -/
theorem program_call {m : Machine} {c : Call} (hc : c.isLoad = false) :
    (m.call c).program = m.program := by
  cases c with
  | load source => cases hc
  | seed s => rfl
  | interrupt =>
      simp only [call, interrupt]
      split <;> rfl
  | reply s =>
      simp only [call, reply]
      split <;> rfl
  | closeInput =>
      simp only [call, closeInput]
      split <;> rfl
  | execute budget =>
      simp only [call, execute]
      split
      · rfl
      · exact program_steps budget m
      · rfl
      · rfl
      · rfl

/-- A step of a program without a way back leads past the line that it is performed at. -/
theorem Stepped.pc_lt_frontier {m m' : Machine} {event : Option Event} (h : Stepped m m' event)
    (hforward : m.program.Forward) (hphase : m.phase = .running) : m.pc < m'.frontier := by
  cases h with
  | ended hend => exact Nat.lt_succ_self m.pc
  | skipped hpc hline => simp [frontier, hphase]
  | undecoded f hpc hline => exact Nat.lt_succ_self m.pc
  | failed s memory f hpc hline hdone => exact Nat.lt_succ_self m.pc
  | continued s memory outcome hpc hline hdone hsilent => simp [frontier, hphase]
  | jumped s memory address hpc hline hdone =>
      have hlt := hforward.lt_of_jump hline (congrArg Prod.snd hdone)
      simpa [frontier, hphase] using hlt
  | printed s memory text hpc hline hdone htext => simp [frontier, hphase]
  | asked s memory prompt hpc hline hdone => exact Nat.lt_succ_self m.pc
  | exited s memory value hpc hline hdone => exact Nat.lt_succ_self m.pc

/-- A step of a program without a way back leaves fewer of them. -/
theorem Stepped.remaining_lt {m m' : Machine} {event : Option Event} (h : Stepped m m' event)
    (hforward : m.program.Forward) (hphase : m.phase = .running) :
    m'.remaining < m.remaining := by
  have hm : m.remaining = m.program.size - m.pc + 1 := by simp only [remaining, hphase]
  have hadvance := h.pc_lt_frontier hforward hphase
  rw [hm]
  cases h with
  | ended hend => exact Nat.succ_pos _
  | skipped hpc hline =>
      simp only [remaining, hphase]
      omega
  | undecoded f hpc hline => exact Nat.succ_pos _
  | failed s memory f hpc hline hdone => exact Nat.succ_pos _
  | continued s memory outcome hpc hline hdone hsilent =>
      simp only [remaining, hphase]
      omega
  | jumped s memory address hpc hline hdone =>
      simp only [frontier, remaining, hphase] at hadvance ⊢
      omega
  | printed s memory text hpc hline hdone htext =>
      simp only [remaining, hphase]
      omega
  | asked s memory prompt hpc hline hdone => exact Nat.lt_succ_self _
  | exited s memory value hpc hline hdone => exact Nat.succ_pos _

/-- The lines that a slice performs ascend. -/
theorem rises_performing {m : Machine} (hforward : m.program.Forward) (hphase : m.phase = .running)
    (budget : Nat) : Rises m.pc ((performing budget m).map pc) (steps budget m).1.frontier := by
  induction budget generalizing m with
  | zero =>
      refine .nil (Nat.le_of_eq ?_)
      simp only [steps, frontier, hphase]
  | succ budget ih =>
      rw [performing, steps]
      cases hstep : m.step with
      | mk m' event =>
          have hstepped := stepped_of_step hstep
          have hadvance := hstepped.pc_lt_frontier hforward hphase
          cases event with
          | some event => exact .cons (Nat.le_refl _) (.nil hadvance)
          | none =>
              have hphase' := hstepped.phase_eq.trans hphase
              have hlater := ih (hstepped.program_eq ▸ hforward) hphase'
              simp only [frontier, hphase'] at hadvance
              exact .cons (Nat.le_refl _) (hlater.weaken hadvance)

/-- The lines that a call performs ascend, from the frontier before it to the one after it. -/
theorem rises_call {m : Machine} {c : Call} (hforward : m.program.Forward)
    (hc : c.isLoad = false) :
    Rises m.frontier ((Moment.mk m c).performing.map pc) (m.call c).frontier := by
  cases c with
  | load source => cases hc
  | seed s => exact .nil (Nat.le_refl _)
  | interrupt =>
      refine .nil ?_
      simp only [call, interrupt, frontier]
      cases hphase : m.phase <;> simp [hphase]
  | reply s =>
      refine .nil ?_
      simp only [call, reply, frontier]
      cases hphase : m.phase <;> simp [hphase]
  | closeInput =>
      refine .nil ?_
      simp only [call, closeInput, frontier]
      cases hphase : m.phase <;> simp [hphase]
  | execute budget =>
      simp only [call, execute, Moment.performing]
      cases hphase : m.phase with
      | running =>
          have hslice := rises_performing hforward hphase budget
          simpa only [frontier, hphase] using hslice
      | stopped => exact .nil (Nat.le_refl _)
      | waiting prompt => exact .nil (Nat.le_refl _)
      | inputClosed => exact .nil (by simp [frontier, hphase, fail])
      | interrupted => exact .nil (by simp [frontier, hphase, fail])

theorem visits_cons (m : Machine) (c : Call) (calls : List Call) :
    m.visits (c :: calls) =
      (Moment.mk m c).performing.map pc ++ (m.call c).visits calls := by
  simp [visits]

/-- The lines that a history performs ascend. -/
theorem rises_visits {m : Machine} {calls : List Call} (hforward : m.program.Forward)
    (hcalls : ∀ c ∈ calls, c.isLoad = false) :
    Rises m.frontier (m.visits calls) (m.after calls).frontier := by
  induction calls generalizing m with
  | nil => exact .nil (Nat.le_refl _)
  | cons c calls ih =>
      rw [List.forall_mem_cons] at hcalls
      have hprogram := program_call (m := m) hcalls.1
      rw [visits_cons, after_cons]
      exact (rises_call hforward hcalls.1).append (ih (hprogram ▸ hforward) hcalls.2)

/-- Each step of a slice that uses up its steps leaves fewer of them. -/
theorem remaining_of_steps_none {budget : Nat} {m m' : Machine} (hforward : m.program.Forward)
    (hphase : m.phase = .running) (h : steps budget m = (m', none)) :
    m'.remaining + budget ≤ m.remaining := by
  induction budget generalizing m with
  | zero =>
      obtain ⟨rfl, -⟩ := Prod.mk.inj h
      exact Nat.le_refl _
  | succ budget ih =>
      rw [steps] at h
      cases hstep : m.step with
      | mk next event =>
          rw [hstep] at h
          cases event with
          | some event => cases h
          | none =>
              have hstepped := stepped_of_step hstep
              have hless := hstepped.remaining_lt hforward hphase
              have hlater := ih (hstepped.program_eq ▸ hforward)
                (hstepped.phase_eq.trans hphase) h
              omega

/-- A slice of a machine that has not stopped leaves no more than there were, and fewer if it is one
of those that count. -/
theorem remaining_execute {m m' : Machine} {budget : Nat} {event : Event}
    (hforward : m.program.Forward) (hlive : m.phase ≠ .stopped)
    (h : m.execute budget = (m', event)) :
    m'.remaining + (Moment.mk m (.execute budget)).isDriving.toNat ≤ m.remaining := by
  have hone := Bool.toNat_le (Moment.mk m (.execute budget)).isDriving
  cases sliced_of_execute h with
  | stopped hphase => exact absurd hphase hlive
  | waiting prompt hphase => simp [Moment.isDriving, isWaiting, hphase]
  | refused hphase =>
      simp only [remaining, hphase]
      omega
  | interrupted hphase =>
      simp only [remaining, hphase]
      omega
  | usedUp m' hphase hsteps =>
      have hless := remaining_of_steps_none hforward hphase hsteps
      cases budget with
      | zero => simpa [Moment.isDriving] using hless
      | succ budget => omega
  | ended start m' event done hphase hlt hbefore hstep =>
      have hless := remaining_of_steps_none hforward hphase hbefore
      have hprogram : start.program = m.program := by
        rw [← program_steps done m, hbefore]
      have hphase' := (phase_eq_of_steps_none hbefore).trans hphase
      have hlast := (stepped_of_step hstep).remaining_lt (hprogram ▸ hforward) hphase'
      omega

/-- A machine that asks for a line is at one. -/
theorem Coherent.pc_lt_of_waiting {m : Machine} {prompt : String} (hm : m.Coherent)
    (hphase : m.phase = .waiting prompt) : m.pc < m.program.size := by
  obtain ⟨argument, ⟨l, hpc, -, -⟩, -⟩ := hm.waiting prompt hphase
  exact hpc

/-- So does every other call that loads no program.  Answers, refusals and interrupts are where a
machine that waits has to be at a line of its program. -/
theorem remaining_call {m : Machine} {c : Call} (hforward : m.program.Forward)
    (hcoherent : m.Coherent) (hlive : m.phase ≠ .stopped) (hc : c.isLoad = false) :
    (m.call c).remaining + (Moment.mk m c).isDriving.toNat ≤ m.remaining := by
  cases c with
  | load source => cases hc
  | seed s => exact Nat.le_refl _
  | interrupt =>
      show m.interrupt.remaining ≤ m.remaining
      rw [interrupt_of_not_stopped hlive]
      cases hphase : m.phase with
      | stopped => exact absurd hphase hlive
      | running => simp [remaining, hphase]
      | waiting prompt =>
          have hpc := hcoherent.pc_lt_of_waiting hphase
          simp only [remaining, hphase]
          omega
      | inputClosed => simp [remaining, hphase]
      | interrupted => simp [remaining, hphase]
  | reply s =>
      show (m.reply s).remaining ≤ m.remaining
      cases hphase : m.phase with
      | waiting prompt =>
          have hpc := hcoherent.pc_lt_of_waiting hphase
          rw [reply_of_waiting hphase]
          simp only [remaining, hphase]
          omega
      | stopped => exact absurd hphase hlive
      | running => simp [reply, hphase]
      | inputClosed => simp [reply, hphase]
      | interrupted => simp [reply, hphase]
  | closeInput =>
      show m.closeInput.remaining ≤ m.remaining
      cases hphase : m.phase with
      | waiting prompt =>
          have hpc := hcoherent.pc_lt_of_waiting hphase
          simp only [closeInput, remaining, hphase]
          omega
      | stopped => exact absurd hphase hlive
      | running => simp [closeInput, hphase]
      | inputClosed => simp [closeInput, hphase]
      | interrupted => simp [closeInput, hphase]
  | execute budget => exact remaining_execute hforward hlive rfl

theorem response_ne_loaded {t : Moment} (h : t.call.isLoad = false) : t.response ≠ .loaded := by
  obtain ⟨m, c⟩ := t
  cases c with
  | load source => cases h
  | seed s => simp [Moment.response]
  | interrupt => simp [Moment.response]
  | reply s => simp [Moment.response]
  | closeInput => simp [Moment.response]
  | execute budget => simp [Moment.response]

/-- After a history the program has ended, or the slices that count have used up as much of what
remained. -/
theorem stopped_or_remaining {m : Machine} {calls : List Call} (hforward : m.program.Forward)
    (hcoherent : m.Coherent) (hcalls : ∀ c ∈ calls, c.isLoad = false) :
    (m.after calls).phase = .stopped ∨
      (m.after calls).remaining + m.drives calls ≤ m.remaining := by
  induction calls generalizing m with
  | nil => exact Or.inr (Nat.le_refl _)
  | cons c calls ih =>
      by_cases hm : m.phase = .stopped
      · have hall : ∀ t ∈ m.trace (c :: calls), t.response ≠ .loaded :=
          fun t ht => response_ne_loaded (hcalls t.call (call_mem_of_mem_trace ht))
        exact Or.inl (halted_of_stopped hm hall).1.phase_eq
      · rw [List.forall_mem_cons] at hcalls
        have hfirst := remaining_call hforward hcoherent hm hcalls.1
        have hprogram := program_call (m := m) hcalls.1
        rcases ih (hprogram ▸ hforward) (hcoherent.call c) hcalls.2 with hstopped | hlater
        · exact Or.inl hstopped
        · refine Or.inr ?_
          have hcount : m.drives (c :: calls) =
              (m.call c).drives calls + (Moment.mk m c).isDriving.toNat := by
            rw [drives, trace_cons, List.countP_cons]
            cases (Moment.mk m c).isDriving <;> rfl
          rw [after_cons, hcount]
          omega

/-- Only a slice stops a machine, and it tells the end of the program. -/
theorem live_of_not_isEnd {t : Moment} (hlive : t.machine.phase ≠ .stopped)
    (hload : t.call.isLoad = false) (hend : t.response.isEnd = false) :
    t.next.phase ≠ .stopped := by
  obtain ⟨m, c⟩ := t
  cases c with
  | load source => cases hload
  | seed s => exact hlive
  | interrupt =>
      show m.interrupt.phase ≠ .stopped
      rw [interrupt_of_not_stopped hlive]
      simp
  | reply s => exact reply_live hlive s
  | closeInput => exact closeInput_live hlive
  | execute budget =>
      show (m.execute budget).1.phase ≠ .stopped
      cases hslice : m.execute budget with
      | mk m' event =>
          obtain ⟨hevent, hopen⟩ := execute_live hlive hslice
          refine hopen ?_
          have hnot : Response.isEnd (.event (m.execute budget).2) = false := hend
          rw [hslice] at hnot
          cases event with
          | stopped => exact absurd rfl hevent
          | running => rfl
          | print text => rfl
          | input prompt => rfl
          | exit value => cases hnot
          | fault f => cases hnot

/-- A history that stops a machine has told the end of its program. -/
theorem exists_isEnd {m : Machine} {calls : List Call} (hlive : m.phase ≠ .stopped)
    (hcalls : ∀ c ∈ calls, c.isLoad = false) (hstopped : (m.after calls).phase = .stopped) :
    ∃ t ∈ m.trace calls, t.response.isEnd = true := by
  refine Classical.byContradiction fun hnone => ?_
  have hall : ∀ t ∈ m.trace calls, t.call.isLoad = false ∧ t.response.isEnd = false := by
    intro t ht
    refine ⟨hcalls t.call (call_mem_of_mem_trace ht), ?_⟩
    exact Bool.eq_false_iff.mpr fun hend => hnone ⟨t, ht, hend⟩
  have hopen := @trace_induction (·.phase ≠ .stopped) _
    (fun t ht hm => live_of_not_isEnd hm ht.1 ht.2) m hlive calls hall
  exact hopen.1 hstopped

theorem program_after {m : Machine} {calls : List Call} (hcalls : ∀ c ∈ calls, c.isLoad = false) :
    (m.after calls).program = m.program := by
  induction calls generalizing m with
  | nil => rfl
  | cons c calls ih =>
      rw [List.forall_mem_cons] at hcalls
      rw [after_cons, ih hcalls.2, program_call hcalls.1]

theorem Coherent.frontier_le {m : Machine} (hm : m.Coherent) : m.frontier ≤ m.program.size + 1 := by
  have hpc := hm.pc_le
  unfold frontier
  split <;> omega

/-- A machine that has not stopped can be driven once more. -/
theorem Coherent.remaining_pos {m : Machine} (hm : m.Coherent) (hlive : m.phase ≠ .stopped) :
    0 < m.remaining := by
  cases hphase : m.phase with
  | stopped => exact absurd hphase hlive
  | running => simp [remaining, hphase]
  | waiting prompt =>
      have hpc := hm.pc_lt_of_waiting hphase
      simp only [remaining, hphase]
      omega
  | inputClosed => simp [remaining, hphase]
  | interrupted => simp [remaining, hphase]

/-- **Programs without a way back come to an end.**  Let all jumps of a program that stand for a
line go forward.  A machine that runs it, wherever it is and whatever it holds, needs no more steps
than there are lines left and one: a slice of as many ends with something else than that there is
more to run.  And whatever a host does with the program once it is loaded, and whatever it answers,
no line is performed twice: the steps are at ascending addresses, up to the end of the program, so
there are at most as many as lines and one.  Once the host has run as many slices of at least one
step that found no question pending, the machine has stopped, and the host has been told that the
program has ended, with its value or with a fault. -/
theorem forward_programs_finish (p : Program) (hforward : p.Forward) :
    (∀ (m : Machine) (budget : Nat), m.program = p → m.phase = .running →
      p.size - m.pc + 1 ≤ budget → (m.execute budget).2 ≠ .running) ∧
    ∀ (m : Machine) (source : List String) (calls : List Call),
      Program.ofSource source = .ok p → (∀ c ∈ calls, c.isLoad = false) →
      ((m.load source).1.visits calls).Pairwise (· < ·) ∧
      (∀ address ∈ (m.load source).1.visits calls, address ≤ p.size) ∧
      ((m.load source).1.visits calls).length ≤ p.size + 1 ∧
      (p.size + 1 ≤ (m.load source).1.drives calls →
        ((m.load source).1.after calls).phase = .stopped ∧
        ∃ t ∈ (m.load source).1.trace calls, t.response.isEnd = true) := by
  refine ⟨?_, fun m source calls hsource hcalls => ?_⟩
  · rintro m budget rfl hphase hbudget hrunning
    cases hsteps : steps budget m with
    | mk m' found =>
        rw [execute_of_running hphase, hsteps] at hrunning
        cases found with
        | some event => exact event_ne_running_of_steps hsteps hrunning
        | none =>
            have hless := remaining_of_steps_none hforward hphase hsteps
            have hphase' := (phase_eq_of_steps_none hsteps).trans hphase
            simp only [remaining, hphase, hphase'] at hless
            omega
  · have hcoherent := coherent_load (m := m) source
    have hstart : (m.load source).1.program = p ∧ (m.load source).1.phase = .running ∧
        (m.load source).1.pc = 0 := by
      rw [load_of_ok hsource]
      exact ⟨rfl, rfl, rfl⟩
    generalize (m.load source).1 = start at hcoherent hstart ⊢
    obtain ⟨rfl, hphase, hpc⟩ := hstart
    have hrises := rises_visits hforward hcalls
    have hlater := hcoherent.after calls
    have hfrontier := hlater.frontier_le
    rw [program_after hcalls] at hfrontier
    refine ⟨hrises.pairwise, fun address hmem => ?_, ?_, fun hdrives => ?_⟩
    · have hbounds := hrises.mem_bounds hmem
      omega
    · have hlength := hrises.add_length_le
      omega
    · have hstopped : (start.after calls).phase = .stopped := by
        refine Classical.byContradiction fun hlive => ?_
        have hpos := hlater.remaining_pos hlive
        have hless := (stopped_or_remaining hforward hcoherent hcalls).resolve_left hlive
        have hall : start.remaining = start.program.size + 1 := by
          simp only [remaining, hphase, hpc, Nat.sub_zero]
        omega
      exact ⟨hstopped, exists_isEnd (by simp [hphase]) hcalls hstopped⟩

/-- A program that asks for a number and jumps, if it is small, past the line that calls it big. -/
def judging : List String :=
  ["READ \"n? \"", "PUSH 3", "IFLT SMALL", "PRINT \"big\"", "|SMALL|", "RET"]

/-- A host that runs single steps and answers the question. -/
def answering : List Call :=
  [.execute 1, .reply "2"] ++ List.replicate 7 (.execute 1)

theorem forward_programs_finish_judging :
    ((fresh (.ticking 0)).load judging).1.program.Forward ∧
    ((fresh (.ticking 0)).load judging).1.visits answering = [0, 1, 2, 4, 5] ∧
    (((fresh (.ticking 0)).load judging).1.visits answering).Pairwise (· < ·) ∧
    (((fresh (.ticking 0)).load judging).1.after answering).phase = .stopped ∧
    ∃ t ∈ ((fresh (.ticking 0)).load judging).1.trace answering, t.response.isEnd = true := by
  have hforward : ((fresh (.ticking 0)).load judging).1.program.Forward := by decide +kernel
  have hsource : Program.ofSource judging = .ok ((fresh (.ticking 0)).load judging).1.program := rfl
  have hcalls : ∀ c ∈ answering, c.isLoad = false := by decide
  have hdrives : ((fresh (.ticking 0)).load judging).1.program.size + 1 ≤
      ((fresh (.ticking 0)).load judging).1.drives answering := by decide +kernel
  obtain ⟨hascending, -, -, hend⟩ :=
    (forward_programs_finish _ hforward).2 (fresh (.ticking 0)) judging answering hsource hcalls
  exact ⟨hforward, by decide +kernel, hascending, hend hdrives⟩

end Machine
end Fifo
