import Fifo.Proofs.Machine.Slicing
import Fifo.Proofs.Program.Insertion

/-!
# Lines that do nothing cannot be noticed

Two machines run the same program, but for one line that does nothing and is only in the second.
The second machine is beside the first (`Beside`) as long as it is at the same line, which may have
moved; where the first has just come to the line behind the gap by falling through, the second is
still at the new line and one silent step behind (`Trails`).  Jumps never lead to the new line,
since no label stands for it.

`Beside.stepped` matches one step of the first machine with one of the second.  From it follows, by
induction over the steps of a slice and for each of the two machines in turn, that every slice of
either machine is matched by a slice of the other, of whatever length is needed; and so are the
whole dialogues.
-/

namespace Fifo

/-- The event as it is once a line was put in at `i`: faults name the line by its new number. -/
def Event.moved (i : Nat) : Event → Event
  | .fault f => .fault (f.moved i)
  | event => event

@[simp] theorem Event.isFinal_moved (i : Nat) (event : Event) :
    (event.moved i).isFinal = event.isFinal := by
  cases event <;> rfl

@[simp] theorem Event.moved_eq_running_iff (i : Nat) (event : Event) :
    event.moved i = .running ↔ event = .running := by
  cases event <;> simp [moved]

/-- What a statement asks for once a line was put in at `i`. -/
def Outcome.moved (i : Nat) : Outcome → Outcome
  | .jump address => .jump (shift i address)
  | outcome => outcome

namespace Memory

theorem act_moved (m : Memory) (a : Action) (i : Nat) :
    (m.act a).2.map (Outcome.moved i) = (m.act a).2 := by
  cases h : (m.act a).2 with
  | error f => rfl
  | ok outcome => rcases act_outcome h with rfl | ⟨text, rfl⟩ | ⟨value, rfl⟩ <;> rfl

/-- A statement that aims at no number does the same in a widened program, and jumps to the same
line where that has moved to. -/
theorem perform_widens {p p' : Program} {i : Nat} (hp : p.Widens i p') (m : Memory) {s : Statement}
    (hs : s.aimsAtNumber = false) :
    m.perform p' s = ((m.perform p s).1, (m.perform p s).2.map (Outcome.moved i)) := by
  cases s with
  | act a => rw [perform, perform, act_moved]
  | goto target =>
      cases target with
      | line n => cases hs
      | label name =>
          simp only [perform, goto, hp.resolve_label]
          cases p.resolve (.label name) <;> rfl
  | branch relation target =>
      cases target with
      | line n => cases hs
      | label name =>
          simp only [perform, branch, hp.resolve_label]
          cases p.resolve (.label name) with
          | error f => rfl
          | ok address =>
              cases m.queue.firstTwo with
              | error f => rfl
              | ok seen =>
                  simp only [Except.map]
                  cases relation.test seen.1 seen.2 with
                  | error f => rfl
                  | ok holds => cases holds <;> rfl
  | push literal => rfl
  | print literal => rfl
  | read prompt => rfl

end Memory

namespace Machine

/-- The second machine is at the same line of its wider program, and all else is equal. -/
structure Beside (i : Nat) (m m' : Machine) : Prop where
  widens : m.program.Widens i m'.program
  byLabel : m.program.ByLabel
  memory_eq : m'.memory = m.memory
  phase_eq : m'.phase = m.phase
  pc_eq : m'.pc = shift i m.pc

/-- The second machine is beside the first, or will be after its next step, which is silent. -/
def Trails (i : Nat) (m m' : Machine) : Prop :=
  Beside i m m' ∨ (m.phase = .running ∧ m'.pc = i ∧ Beside i m m'.advance)

theorem Trails.beside {i : Nat} {m m' : Machine} (h : Trails i m m') (hphase : m.phase ≠ .running) :
    Beside i m m' := by
  rcases h with hbeside | ⟨hrunning, -, -⟩
  · exact hbeside
  · exact absurd hrunning hphase

theorem Trails.memory_eq {i : Nat} {m m' : Machine} (h : Trails i m m') : m'.memory = m.memory := by
  rcases h with hbeside | ⟨-, -, hbeside⟩
  · exact hbeside.memory_eq
  · exact hbeside.memory_eq

theorem Trails.phase_eq {i : Nat} {m m' : Machine} (h : Trails i m m') : m'.phase = m.phase := by
  rcases h with hbeside | ⟨-, -, hbeside⟩
  · exact hbeside.phase_eq
  · exact hbeside.phase_eq

/-- Two machines beside each other stay so if they stay where they are. -/
theorem Beside.stay {i : Nat} {m m' : Machine} (h : Beside i m m') (memory : Memory)
    (phase : Phase) :
    Beside i { m with memory := memory, phase := phase }
      { m' with memory := memory, phase := phase } :=
  ⟨h.widens, h.byLabel, rfl, rfl, h.pc_eq⟩

theorem Beside.stop {i : Nat} {m m' : Machine} (h : Beside i m m') :
    Beside i { m with phase := .stopped } { m' with phase := .stopped } :=
  ⟨h.widens, h.byLabel, h.memory_eq, rfl, h.pc_eq⟩

/-- Where both machines go on with the next line, the second comes to the new line if that is
next. -/
theorem Beside.next {i : Nat} {m m' n n' : Machine} (h : Beside i m m')
    (hprogram : n.program = m.program) (hprogram' : n'.program = m'.program)
    (hmemory : n'.memory = n.memory) (hphase : n.phase = .running) (hphase' : n'.phase = .running)
    (hpc : n.pc = m.pc + 1) (hpc' : n'.pc = m'.pc + 1) : Trails i n n' := by
  have hwidens : n.program.Widens i n'.program := by
    rw [hprogram, hprogram']
    exact h.widens
  have hbyLabel : n.program.ByLabel := hprogram ▸ h.byLabel
  have hphases : n'.phase = n.phase := hphase'.trans hphase.symm
  have hat := h.pc_eq
  by_cases hnew : n.pc = i
  · rw [shift_of_lt (by omega)] at hat
    refine Or.inr ⟨hphase, by omega, hwidens, hbyLabel, hmemory, hphases, ?_⟩
    change n'.pc + 1 = shift i n.pc
    rw [shift_of_le (by omega)]
    omega
  · refine Or.inl ⟨hwidens, hbyLabel, hmemory, hphases, ?_⟩
    unfold shift at hat ⊢
    split at hat <;> split <;> omega

theorem Beside.pc_lt {i : Nat} {m m' : Machine} (h : Beside i m m')
    (hpc : m.pc < m.program.size) : m'.pc < m'.program.size := by
  rw [h.pc_eq, h.widens.size_eq]
  unfold shift
  split <;> omega

theorem Beside.statementAt {i : Nat} {m m' : Machine} (h : Beside i m m') :
    m'.program.statementAt m'.pc = (m.program.statementAt m.pc).mapError (Fault.moved i) := by
  rw [h.pc_eq]
  exact h.widens.statementAt_shift m.pc

theorem Beside.perform {i : Nat} {m m' : Machine} {s : Statement} {memory : Memory}
    {result : Except Fault Outcome} (h : Beside i m m')
    (hline : m.program.statementAt m.pc = .ok (some s))
    (hdone : m.memory.perform m.program s = (memory, result)) :
    m'.memory.perform m'.program s = (memory, result.map (Outcome.moved i)) := by
  rw [h.memory_eq, Memory.perform_widens h.widens _ (h.byLabel m.pc s hline), hdone]

/-- A step of the first machine is matched by a step of the second with the same event. -/
theorem Beside.stepped {i : Nat} {m m' n : Machine} {event : Option Event} (h : Beside i m m')
    (hphase : m.phase = .running) (hstep : Stepped m n event) :
    ∃ n', Stepped m' n' (event.map (Event.moved i)) ∧ Trails i n n' := by
  have hphase' : m'.phase = .running := h.phase_eq.trans hphase
  have hstatement := h.statementAt
  cases hstep with
  | ended hend =>
      have hend' : m'.program.size ≤ m'.pc := by
        have hle := h.widens.le_size
        rw [h.widens.size_eq, h.pc_eq, shift_of_le (by omega)]
        omega
      exact ⟨_, .ended hend', Or.inl h.stop⟩
  | skipped hpc hline =>
      rw [hline] at hstatement
      exact ⟨_, .skipped (h.pc_lt hpc) hstatement,
        h.next rfl rfl h.memory_eq hphase hphase' rfl rfl⟩
  | undecoded f hpc hline =>
      rw [hline] at hstatement
      refine ⟨_, ?_, Or.inl h.stop⟩
      have hfault := Stepped.undecoded _ (h.pc_lt hpc) hstatement
      rw [Option.map_some, Event.moved, Fault.moved_inLine, ← h.pc_eq]
      exact hfault
  | failed s memory f hpc hline hdone =>
      rw [hline] at hstatement
      have hdone' := h.perform hline hdone
      refine ⟨_, ?_, Or.inl (h.stay memory .stopped)⟩
      have hfault := Stepped.failed s memory f (h.pc_lt hpc) hstatement hdone'
      -- Statements raise their faults without a place, so there is nothing to move yet.
      have hraised := Memory.perform_fault (congrArg Prod.snd hdone)
      rw [Option.map_some, Event.moved, Fault.moved_inLine,
        Fault.moved_of_line_eq_none hraised.line_eq, ← h.pc_eq]
      exact hfault
  | continued s memory outcome hpc hline hdone hsilent =>
      rw [hline] at hstatement
      have hdone' := h.perform hline hdone
      refine ⟨_, .continued s memory _ (h.pc_lt hpc) hstatement hdone' ?_,
        h.next rfl rfl rfl hphase hphase' rfl rfl⟩
      rcases hsilent with rfl | rfl
      · exact Or.inl rfl
      · exact Or.inr rfl
  | jumped s memory address hpc hline hdone =>
      rw [hline] at hstatement
      have hdone' := h.perform hline hdone
      exact ⟨_, .jumped s memory (shift i address) (h.pc_lt hpc) hstatement hdone',
        Or.inl ⟨h.widens, h.byLabel, rfl, h.phase_eq, rfl⟩⟩
  | printed s memory text hpc hline hdone htext =>
      rw [hline] at hstatement
      have hdone' := h.perform hline hdone
      exact ⟨_, .printed s memory text (h.pc_lt hpc) hstatement hdone' htext,
        h.next rfl rfl rfl hphase hphase' rfl rfl⟩
  | asked s memory prompt hpc hline hdone =>
      rw [hline] at hstatement
      have hdone' := h.perform hline hdone
      exact ⟨_, .asked s memory prompt (h.pc_lt hpc) hstatement hdone',
        Or.inl (h.stay memory (.waiting prompt))⟩
  | exited s memory value hpc hline hdone =>
      rw [hline] at hstatement
      have hdone' := h.perform hline hdone
      exact ⟨_, .exited s memory value (h.pc_lt hpc) hstatement hdone',
        Or.inl (h.stay memory .stopped)⟩

/-- A step of the second machine from the new line is silent, and brings it beside the first. -/
theorem Trails.catch_up {i : Nat} {m m' : Machine} (h : Trails i m m') :
    Beside i m m' ∨ (m'.step = (m'.advance, none) ∧ Beside i m m'.advance) := by
  rcases h with hbeside | ⟨-, hpc, hbeside⟩
  · exact Or.inl hbeside
  · refine Or.inr ⟨?_, hbeside⟩
    have hle := hbeside.widens.le_size
    have hsize : m'.program.size = m.program.size + 1 := hbeside.widens.size_eq
    have hnone : m'.program.statementAt i = .ok none := hbeside.widens.statementAt_new
    exact Stepped.step_eq (.skipped (by omega) (hpc ▸ hnone))

theorem Beside.step {i : Nat} {m m' : Machine} (h : Beside i m m') (hphase : m.phase = .running) :
    m'.step.2 = m.step.2.map (Event.moved i) ∧ Trails i m.step.1 m'.step.1 := by
  obtain ⟨n', hstep', htrails⟩ := h.stepped hphase (stepped_step m)
  rw [hstep'.step_eq]
  exact ⟨rfl, htrails⟩

/-- Two results of steps or slices that match. -/
def Matched (i : Nat) (r r' : Machine × Option Event) : Prop :=
  r'.2 = r.2.map (Event.moved i) ∧ Trails i r.1 r'.1

theorem steps_succ (budget : Nat) (m : Machine) :
    steps (budget + 1) m = match m.step with
      | (m', some event) => (m', some event)
      | (m', none) => steps budget m' :=
  rfl

/-- If two machines are beside each other and what follows their next steps can be matched, then so
can what follows now. -/
theorem Beside.matched_succ {i : Nat} {m m' : Machine} {budget budget' : Nat} (h : Beside i m m')
    (hphase : m.phase = .running)
    (hrest : m.step.2 = none → Matched i (steps budget m.step.1) (steps budget' m'.step.1)) :
    Matched i (steps (budget + 1) m) (steps (budget' + 1) m') := by
  obtain ⟨hevent, htrails⟩ := h.step hphase
  rw [steps_succ, steps_succ]
  cases hstep : m.step with
  | mk n event =>
      cases hstep' : m'.step with
      | mk n' event' =>
          rw [hstep, hstep'] at hevent htrails hrest
          cases event with
          | none =>
              obtain rfl : event' = none := hevent
              exact hrest rfl
          | some event =>
              obtain rfl : event' = some (event.moved i) := hevent
              exact ⟨rfl, htrails⟩

theorem phase_of_step_none {m : Machine} (h : m.step.2 = none) : m.step.1.phase = m.phase := by
  have hstep := stepped_step m
  rw [h] at hstep
  exact hstep.phase_eq

/-- However many steps the first machine takes, the second can match them. -/
theorem Trails.steps_forward {i : Nat} {m m' : Machine} (h : Trails i m m')
    (hphase : m.phase = .running) (budget : Nat) :
    ∃ budget', Matched i (steps budget m) (steps budget' m') := by
  induction budget generalizing m m' with
  | zero => exact ⟨0, rfl, h⟩
  | succ budget ih =>
      -- From beside each other, one step each; then what the rest needs.
      have hlevel : ∀ {n'}, Beside i m n' →
          ∃ budget', Matched i (steps (budget + 1) m) (steps budget' n') := by
        intro n' hbeside
        by_cases hsilent : m.step.2 = none
        · obtain ⟨budget', hrest⟩ :=
            ih (hbeside.step hphase).2 ((phase_of_step_none hsilent).trans hphase)
          exact ⟨budget' + 1, hbeside.matched_succ hphase fun _ => hrest⟩
        · exact ⟨0 + 1, hbeside.matched_succ hphase fun hnone => absurd hnone hsilent⟩
      rcases h.catch_up with hbeside | ⟨hstep, hbeside⟩
      · exact hlevel hbeside
      · obtain ⟨budget', hmatched⟩ := hlevel hbeside
        refine ⟨budget' + 1, ?_⟩
        rw [steps_succ budget', hstep]
        exact hmatched

/-- However many steps the second machine takes, the first can match them. -/
theorem Trails.steps_backward {i : Nat} {m m' : Machine} (h : Trails i m m')
    (hphase : m.phase = .running) (budget' : Nat) :
    ∃ budget, Matched i (steps budget m) (steps budget' m') := by
  induction budget' generalizing m m' with
  | zero => exact ⟨0, rfl, h⟩
  | succ budget' ih =>
      rcases h.catch_up with hbeside | ⟨hstep, hbeside⟩
      · by_cases hsilent : m.step.2 = none
        · obtain ⟨budget, hrest⟩ :=
            ih (hbeside.step hphase).2 ((phase_of_step_none hsilent).trans hphase)
          exact ⟨budget + 1, hbeside.matched_succ hphase fun _ => hrest⟩
        · exact ⟨0 + 1, hbeside.matched_succ hphase fun hnone => absurd hnone hsilent⟩
      · -- The second machine catches up, and the first takes no step.
        rw [steps_succ budget', hstep]
        exact ih (Or.inl hbeside) hphase

/-- Two slices that match. -/
def MatchedSlices (i : Nat) (r r' : Machine × Event) : Prop :=
  r'.2 = r.2.moved i ∧ Trails i r.1 r'.1

theorem Matched.execute {i : Nat} {m m' : Machine} {budget budget' : Nat} (h : Trails i m m')
    (hphase : m.phase = .running) (hmatched : Matched i (steps budget m) (steps budget' m')) :
    MatchedSlices i (m.execute budget) (m'.execute budget') := by
  rw [execute_of_running hphase, execute_of_running (h.phase_eq.trans hphase)]
  refine ⟨?_, hmatched.2⟩
  rw [hmatched.1]
  cases (steps budget m).2 <;> rfl

/-- Without more to run, slices match whatever their numbers of steps. -/
theorem Beside.execute {i : Nat} {m m' : Machine} (h : Beside i m m') (hphase : m.phase ≠ .running)
    (budget budget' : Nat) : MatchedSlices i (m.execute budget) (m'.execute budget') := by
  have hfail : ∀ kind, MatchedSlices i (m.fail (.of kind)) (m'.fail (.of kind)) := by
    intro kind
    refine ⟨?_, Or.inl h.stop⟩
    rw [fail, fail, Event.moved, Fault.moved_inLine, h.pc_eq]
    rfl
  unfold Machine.execute
  rw [h.phase_eq]
  cases hcase : m.phase with
  | running => exact absurd hcase hphase
  | stopped => exact ⟨rfl, Or.inl h⟩
  | waiting prompt => exact ⟨rfl, Or.inl h⟩
  | inputClosed => exact hfail .invalidRead
  | interrupted => exact hfail .interrupted

theorem Trails.execute_forward {i : Nat} {m m' : Machine} (h : Trails i m m') (budget : Nat) :
    ∃ budget', MatchedSlices i (m.execute budget) (m'.execute budget') := by
  by_cases hphase : m.phase = .running
  · obtain ⟨budget', hmatched⟩ := h.steps_forward hphase budget
    exact ⟨budget', hmatched.execute h hphase⟩
  · exact ⟨budget, (h.beside hphase).execute hphase budget budget⟩

theorem Trails.execute_backward {i : Nat} {m m' : Machine} (h : Trails i m m') (budget' : Nat) :
    ∃ budget, MatchedSlices i (m.execute budget) (m'.execute budget') := by
  by_cases hphase : m.phase = .running
  · obtain ⟨budget, hmatched⟩ := h.steps_backward hphase budget'
    exact ⟨budget, hmatched.execute h hphase⟩
  · exact ⟨budget', (h.beside hphase).execute hphase budget' budget'⟩

theorem Trails.reply {i : Nat} {m m' : Machine} (h : Trails i m m') (s : String) :
    Trails i (m.reply s) (m'.reply s) := by
  cases hphase : m.phase with
  | waiting prompt =>
      have hbeside := h.beside (by simp [hphase])
      have hphase' : m'.phase = .waiting prompt := hbeside.phase_eq.trans hphase
      unfold Machine.reply
      rw [hphase, hphase']
      exact hbeside.next rfl rfl (by simp [hbeside.memory_eq]) rfl rfl rfl rfl
  | _ => simpa [Machine.reply, h.phase_eq, hphase] using h

theorem Trails.closeInput {i : Nat} {m m' : Machine} (h : Trails i m m') :
    Trails i m.closeInput m'.closeInput := by
  cases hphase : m.phase with
  | waiting prompt =>
      have hbeside := h.beside (by simp [hphase])
      have hphase' : m'.phase = .waiting prompt := hbeside.phase_eq.trans hphase
      unfold Machine.closeInput
      rw [hphase, hphase']
      exact Or.inl ⟨hbeside.widens, hbeside.byLabel, hbeside.memory_eq, rfl, hbeside.pc_eq⟩
  | _ => simpa [Machine.closeInput, h.phase_eq, hphase] using h

/-- Loaded with a program and with the same program but for an inert line, a machine is beside
itself. -/
theorem trails_load {source : List String} {text : String} {i : Nat} {p p' : Program}
    (hp : Program.ofSource source = .ok p)
    (hp' : Program.ofSource (source.insertIdx i text) = .ok p') (hwidens : p.Widens i p')
    (hlabels : p.ByLabel) (m : Machine) :
    Trails i (m.load source).1 (m.load (source.insertIdx i text)).1 := by
  unfold load
  rw [hp, hp']
  by_cases hi : i = 0
  · subst hi
    exact Or.inr ⟨rfl, rfl, hwidens, hlabels, rfl, rfl, rfl⟩
  · exact Or.inl ⟨hwidens, hlabels, rfl, rfl, (shift_of_lt (Nat.pos_of_ne_zero hi)).symm⟩

end Machine

namespace Dialogue

/-- The second dialogue is that of a machine that trails the first one's, with the same lines. -/
structure Trails (i : Nat) (d d' : Dialogue) : Prop where
  machine : Machine.Trails i d.machine d'.machine
  lines_eq : d'.lines = d.lines

/-- Takes turns like `run`, and gives the events in order, each with the queue as it then is. -/
def record : List Nat → Dialogue → List (Event × Queue Value)
  | [], _ => []
  | budget :: budgets, d =>
      let slice := d.machine.execute budget
      (slice.2, slice.1.queue) ::
        if slice.2.isFinal then [] else record budgets (d.turn budget).1

/-- The part of a record that a user can notice. -/
def log (budgets : List Nat) (d : Dialogue) : List (Event × Queue Value) :=
  (record budgets d).filter (·.1 ≠ .running)

/-- A record as it is once a line was put in at `i`. -/
def moved (i : Nat) (entries : List (Event × Queue Value)) : List (Event × Queue Value) :=
  entries.map fun entry => (entry.1.moved i, entry.2)

theorem moved_events (i : Nat) (entries : List (Event × Queue Value)) :
    (moved i entries).map Prod.fst = (entries.map Prod.fst).map (Event.moved i) := by
  simp [moved]

/-- A record and a run of the same turns have the same events. -/
theorem record_events (budgets : List Nat) (d : Dialogue) :
    (record budgets d).map Prod.fst = (run budgets d).2 := by
  induction budgets generalizing d with
  | nil => rfl
  | cons budget budgets ih =>
      have hevent : (d.turn budget).2 = (d.machine.execute budget).2 := by
        unfold turn
        cases d.machine.execute budget with
        | mk m event => cases event <;> rfl
      rw [run_cons, record, hevent]
      by_cases hfinal : (d.machine.execute budget).2.isFinal = true
      · simp [hfinal]
      · simp [hfinal, ih]

/-- The events of a log are those a user notices of the run. -/
theorem log_events (budgets : List Nat) (d : Dialogue) :
    (log budgets d).map Prod.fst = Event.visible (run budgets d).2 := by
  rw [log, ← record_events, Event.visible, List.filter_map]
  rfl

theorem Trails.answer {i : Nat} {d d' : Dialogue} (h : Trails i d d') :
    Trails i d.answer d'.answer := by
  unfold Dialogue.answer
  rw [h.lines_eq]
  cases d.lines with
  | nil => exact ⟨h.machine.closeInput, rfl⟩
  | cons s rest => exact ⟨h.machine.reply s, rfl⟩

theorem Trails.turn {i : Nat} {d d' : Dialogue} {budget budget' : Nat} (h : Trails i d d')
    (hmatched : Machine.MatchedSlices i (d.machine.execute budget) (d'.machine.execute budget')) :
    Trails i (d.turn budget).1 (d'.turn budget').1 := by
  unfold Dialogue.turn
  cases hslice : d.machine.execute budget with
  | mk m event =>
      cases hslice' : d'.machine.execute budget' with
      | mk m' event' =>
          rw [hslice, hslice'] at hmatched
          obtain ⟨hevent, hmachine⟩ := hmatched
          obtain rfl : event' = event.moved i := hevent
          have hnext : Trails i { d with machine := m } { d' with machine := m' } :=
            ⟨hmachine, h.lines_eq⟩
          cases event with
          | input prompt => exact hnext.answer
          | stopped => exact hnext
          | running => exact hnext
          | print text => exact hnext
          | exit value => exact hnext
          | fault f => exact hnext

/-- If first turns match and so does all that follows, the records match. -/
theorem Trails.record_cons {i : Nat} {d d' : Dialogue} {budget budget' : Nat}
    {budgets budgets' : List Nat}
    (hmatched : Machine.MatchedSlices i (d.machine.execute budget) (d'.machine.execute budget'))
    (hrest : record budgets' (d'.turn budget').1 = moved i (record budgets (d.turn budget).1)) :
    record (budget' :: budgets') d' = moved i (record (budget :: budgets) d) := by
  obtain ⟨hevent, hmachine⟩ := hmatched
  have hqueue : (d'.machine.execute budget').1.queue = (d.machine.execute budget).1.queue := by
    rw [Machine.queue, Machine.queue, hmachine.memory_eq]
  rw [record, record, hevent, hqueue, Event.isFinal_moved]
  by_cases hfinal : (d.machine.execute budget).2.isFinal = true
  · simp [hfinal, moved]
  · simp [hfinal, hrest, moved]

theorem Trails.record_forward {i : Nat} {d d' : Dialogue} (h : Trails i d d') (budgets : List Nat) :
    ∃ budgets', record budgets' d' = moved i (record budgets d) := by
  induction budgets generalizing d d' with
  | nil => exact ⟨[], rfl⟩
  | cons budget budgets ih =>
      obtain ⟨budget', hmatched⟩ := h.machine.execute_forward budget
      obtain ⟨budgets', hrest⟩ := ih (h.turn hmatched)
      exact ⟨budget' :: budgets', record_cons hmatched hrest⟩

theorem Trails.record_backward {i : Nat} {d d' : Dialogue} (h : Trails i d d')
    (budgets' : List Nat) : ∃ budgets, record budgets' d' = moved i (record budgets d) := by
  induction budgets' generalizing d d' with
  | nil => exact ⟨[], rfl⟩
  | cons budget' budgets' ih =>
      obtain ⟨budget, hmatched⟩ := h.machine.execute_backward budget'
      obtain ⟨budgets, hrest⟩ := ih (h.turn hmatched)
      exact ⟨budget :: budgets, record_cons hmatched hrest⟩

theorem log_of_record {i : Nat} {d d' : Dialogue} {budgets budgets' : List Nat}
    (h : record budgets' d' = moved i (record budgets d)) :
    log budgets' d' = moved i (log budgets d) := by
  rw [log, log, h, moved, moved, List.filter_map]
  congr 1
  apply List.filter_congr
  intro entry _
  simp

/-- **Lines that do nothing cannot be noticed.**  Let a program that is accepted jump to labels
only, and let a line be put into it, at any place, that is blank or begins with a bar and has at
least three bars.  Then the new program is accepted.  And whatever machine the two are loaded into,
with whatever seed, and whatever lines it is answered with: what a user can notice of a run of one
program, cut into slices in any way, is what can be noticed of some run of the other, event by event
and with the same queue at each, except that a fault in a line from the new one on names the next
line. -/
theorem insertion_unobservable (source : List String) (i : Nat) (text : String) (p : Program)
    (hp : Program.ofSource source = .ok p) (hlabels : p.ByLabel) (hi : i ≤ source.length)
    (htext : (Line.ofString text).Inert) :
    (∃ p', Program.ofSource (source.insertIdx i text) = .ok p') ∧
    ∀ (m : Machine) (lines : List String),
      (∀ budgets, ∃ budgets',
        log budgets' ⟨(m.load (source.insertIdx i text)).1, lines⟩ =
          moved i (log budgets ⟨(m.load source).1, lines⟩)) ∧
      ∀ budgets', ∃ budgets,
        log budgets' ⟨(m.load (source.insertIdx i text)).1, lines⟩ =
          moved i (log budgets ⟨(m.load source).1, lines⟩) := by
  have hlength : i ≤ (source.map Line.ofString).length := by
    rw [List.length_map]
    exact hi
  have hinserted : Program.ofSource (source.insertIdx i text) =
      Program.ofLines ((source.map Line.ofString).insertIdx i (Line.ofString text)) := by
    rw [Program.ofSource, List.map_insertIdx]
  obtain ⟨p', hp'⟩ := Program.ofLines_insertIdx hp hlength htext
  have hwidens := Program.widens_insertIdx hp hp' hlength htext
  rw [← hinserted] at hp'
  refine ⟨⟨p', hp'⟩, fun m lines => ?_⟩
  have htrails : Trails i ⟨(m.load source).1, lines⟩
      ⟨(m.load (source.insertIdx i text)).1, lines⟩ :=
    ⟨Machine.trails_load hp hp' hwidens hlabels m, rfl⟩
  refine ⟨fun budgets => ?_, fun budgets' => ?_⟩
  · obtain ⟨budgets', hrecord⟩ := htrails.record_forward budgets
    exact ⟨budgets', log_of_record hrecord⟩
  · obtain ⟨budgets, hrecord⟩ := htrails.record_backward budgets'
    exact ⟨budgets, log_of_record hrecord⟩

/-- A program that reads lines and prints them, without end. -/
def parrot : List String :=
  ["|TOP|", "READ \"? \"", "POPLN", "GOTO TOP"]

theorem insertion_unobservable_parrot :
    ∃ p, Program.ofSource parrot = .ok p ∧ p.ByLabel ∧ (Line.ofString " |a|b|").Inert ∧
      Event.visible (run [9, 9, 9, 9] ⟨((Machine.fresh (.ticking 0)).load parrot).1, ["3"]⟩).2 =
        [.input "? ", .print "3\n", .input "? ", .fault ((Fault.of .invalidRead).inLine 1)] ∧
      ∃ budgets', Event.visible (run budgets'
        ⟨((Machine.fresh (.ticking 0)).load (parrot.insertIdx 1 " |a|b|")).1, ["3"]⟩).2 =
          [.input "? ", .print "3\n", .input "? ", .fault ((Fault.of .invalidRead).inLine 2)] := by
  have hp : Program.ofSource parrot = .ok ((Machine.fresh (.ticking 0)).load parrot).1.program :=
    rfl
  have hlabels : ((Machine.fresh (.ticking 0)).load parrot).1.program.ByLabel := by
    decide +kernel
  have hinert : (Line.ofString " |a|b|").Inert :=
    Or.inr ⟨by decide, [' '], "a|b|".toList, by decide, by decide⟩
  have hevents :
      Event.visible (run [9, 9, 9, 9] ⟨((Machine.fresh (.ticking 0)).load parrot).1, ["3"]⟩).2 =
      [.input "? ", .print "3\n", .input "? ", .fault ((Fault.of .invalidRead).inLine 1)] := by
    decide +kernel
  obtain ⟨budgets', hlog⟩ := ((insertion_unobservable parrot 1 " |a|b|" _ hp hlabels (by decide)
    hinert).2 (Machine.fresh (.ticking 0)) ["3"]).1 [9, 9, 9, 9]
  refine ⟨_, hp, hlabels, hinert, hevents, budgets', ?_⟩
  rw [← log_events, hlog, moved_events, log_events, hevents]
  rfl

end Dialogue
end Fifo
