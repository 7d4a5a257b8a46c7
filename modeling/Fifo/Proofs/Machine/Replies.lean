import Fifo.Proofs.Machine.Coherence

/-!
# Replies reach their questions

A host may answer when nothing was asked, refuse a line that nobody waits for, and start a slice
while the machine still waits.  Such a call is untimely: it changes nothing, so a history tells the
same story without it (`trace_timely`, `after_timely`).  An answer that is not untimely meets the
question that is pending, and becomes one value at the back of the queue.
-/

namespace Fifo

/-- Does the machine wait for a line? -/
def Machine.isWaiting (m : Machine) : Bool :=
  match m.phase with
  | .waiting _ => true
  | .stopped | .running | .inputClosed | .interrupted => false

namespace Moment

/-- Does the call come at the wrong time?  An answer and a refusal need a question that is pending,
and a slice needs that there is none. -/
def isUntimely (t : Moment) : Bool :=
  match t.call with
  | .reply _ | .closeInput => !t.machine.isWaiting
  | .execute _ => t.machine.isWaiting
  | .load _ | .seed _ | .interrupt => false

end Moment

namespace Machine

/-- The calls of a history that come at the right time. -/
def timely (m : Machine) (calls : List Call) : List Call :=
  ((m.trace calls).filter (!·.isUntimely)).map Moment.call

theorem isWaiting_eq_true_iff (m : Machine) :
    m.isWaiting = true ↔ ∃ prompt, m.phase = .waiting prompt := by
  unfold isWaiting
  cases m.phase <;> simp

theorem reply_of_waiting {m : Machine} {prompt : String} (h : m.phase = .waiting prompt)
    (s : String) : m.reply s =
      { m with
        memory.queue := m.memory.queue.push (.ofReply s), pc := m.pc + 1, phase := .running } := by
  rw [reply, h]

theorem reply_of_not_waiting {m : Machine} (h : m.isWaiting = false) (s : String) :
    m.reply s = m := by
  unfold isWaiting at h
  unfold reply
  cases hphase : m.phase <;> simp [hphase] at h ⊢

theorem closeInput_of_not_waiting {m : Machine} (h : m.isWaiting = false) : m.closeInput = m := by
  unfold isWaiting at h
  unfold closeInput
  cases hphase : m.phase <;> simp [hphase] at h ⊢

theorem execute_of_waiting {m : Machine} {prompt : String} (h : m.phase = .waiting prompt)
    (budget : Nat) : m.execute budget = (m, .input prompt) := by
  rw [execute, h]

end Machine

/-- An untimely call changes nothing. -/
theorem Moment.next_of_isUntimely {t : Moment} (h : t.isUntimely = true) : t.next = t.machine := by
  obtain ⟨m, c⟩ := t
  cases c with
  | load source => cases h
  | seed s => cases h
  | interrupt => cases h
  | reply s => exact Machine.reply_of_not_waiting (by simpa [isUntimely] using h) s
  | closeInput => exact Machine.closeInput_of_not_waiting (by simpa [isUntimely] using h)
  | execute budget =>
      obtain ⟨prompt, hphase⟩ := (Machine.isWaiting_eq_true_iff m).mp h
      exact congrArg Prod.fst (Machine.execute_of_waiting hphase budget)

namespace Machine

theorem timely_cons_of_isUntimely {m : Machine} {c : Call}
    (h : (Moment.mk m c).isUntimely = true) (calls : List Call) :
    m.timely (c :: calls) = (m.call c).timely calls := by
  simp [timely, h]

theorem timely_cons_of_timely {m : Machine} {c : Call}
    (h : (Moment.mk m c).isUntimely = false) (calls : List Call) :
    m.timely (c :: calls) = c :: (m.call c).timely calls := by
  simp [timely, h]

/-- Without its untimely calls, a history has the same moments but for those of the calls left out:
every other call is made to the same machine. -/
theorem trace_timely (m : Machine) (calls : List Call) :
    m.trace (m.timely calls) = (m.trace calls).filter (!·.isUntimely) := by
  induction calls generalizing m with
  | nil => rfl
  | cons c calls ih =>
      cases h : (Moment.mk m c).isUntimely with
      | true =>
          -- The call that is left out would not have changed the machine.
          have hsame : m.call c = m := Moment.next_of_isUntimely h
          rw [timely_cons_of_isUntimely h, trace_cons, List.filter_cons_of_neg (by simp [h]), hsame]
          exact ih m
      | false =>
          rw [timely_cons_of_timely h, trace_cons, trace_cons,
            List.filter_cons_of_pos (by simp [h]), ih]

/-- Without its untimely calls, a history leaves the same machine. -/
theorem after_timely (m : Machine) (calls : List Call) :
    m.after (m.timely calls) = m.after calls := by
  induction calls generalizing m with
  | nil => rfl
  | cons c calls ih =>
      cases h : (Moment.mk m c).isUntimely with
      | true =>
          have hsame : m.call c = m := Moment.next_of_isUntimely h
          rw [timely_cons_of_isUntimely h, after_cons, hsame]
          exact ih m
      | false =>
          rw [timely_cons_of_timely h, after_cons, after_cons]
          exact ih (m.call c)

/-- A machine that waits is at the question that it waits for. -/
theorem Coherent.exists_question {m : Machine} (hm : m.Coherent) (h : m.isWaiting = true) :
    ∃ argument, m.AtQuestion argument ∧ m.phase = .waiting (Memory.promptOf argument) := by
  obtain ⟨prompt, hphase⟩ := (isWaiting_eq_true_iff m).mp h
  obtain ⟨argument, hquestion, rfl⟩ := hm.waiting prompt hphase
  exact ⟨argument, hquestion, hphase⟩

/-- **No reply is lost, doubled or misplaced.**  Take any history of calls to a fresh machine, and
leave out all answers and refusals that come while no question is pending, and all slices that are
started while one is.  The machine ends as before, and every call that is left is made to the
machine that it was made to before, and so has the same response.  A call that was left out had no
effect, and if it was a slice, it showed the prompt of the pending question again.  And each answer
that is left is made to a machine at a question: it becomes one value at the back of the queue, the
machine goes on behind the question, and nothing else changes. -/
theorem replies_reach_questions (clock : Random.Clock) (calls : List Call) :
    (fresh clock).after ((fresh clock).timely calls) = (fresh clock).after calls ∧
    (fresh clock).trace ((fresh clock).timely calls) =
      ((fresh clock).trace calls).filter (!·.isUntimely) ∧
    ((fresh clock).trace ((fresh clock).timely calls)).map Moment.response =
      (((fresh clock).trace calls).filter (!·.isUntimely)).map Moment.response ∧
    (∀ t ∈ (fresh clock).trace calls, t.isUntimely = true →
      t.next = t.machine ∧
      ∀ budget, t.call = .execute budget →
        ∃ argument, t.machine.AtQuestion argument ∧
          t.response = .event (.input (Memory.promptOf argument))) ∧
    ∀ t ∈ (fresh clock).trace ((fresh clock).timely calls), ∀ s, t.call = .reply s →
      (∃ argument, t.machine.AtQuestion argument) ∧
      t.next.queue.toList = t.machine.queue.toList ++ [.ofReply s] ∧
      t.next.pc = t.machine.pc + 1 ∧
      t.next.phase = .running ∧
      t.next.program = t.machine.program ∧
      t.next.supply = t.machine.supply := by
  refine ⟨after_timely _ calls, trace_timely _ calls, by rw [trace_timely], ?_, ?_⟩
  · intro t ht huntimely
    refine ⟨Moment.next_of_isUntimely huntimely, fun budget hcall => ?_⟩
    obtain ⟨m, c⟩ := t
    obtain rfl : c = .execute budget := hcall
    have hcoherent := (coherent_fresh clock).of_mem_trace ht
    obtain ⟨argument, hquestion, hphase⟩ := hcoherent.exists_question huntimely
    refine ⟨argument, hquestion, ?_⟩
    simp only [Moment.response, execute_of_waiting hphase]
  · intro t ht s hcall
    have hcoherent := (coherent_fresh clock).of_mem_trace ht
    rw [trace_timely] at ht
    obtain ⟨m, c⟩ := t
    obtain rfl : c = .reply s := hcall
    -- An answer that was left in the history has a question.
    have hwaiting : m.isWaiting = true := by
      simpa [Moment.isUntimely] using (List.mem_filter.mp ht).2
    obtain ⟨argument, hquestion, hphase⟩ := hcoherent.exists_question hwaiting
    have hnext : (Moment.mk m (.reply s)).next = _ := reply_of_waiting hphase s
    refine ⟨⟨argument, hquestion⟩, ?_⟩
    rw [hnext]
    exact ⟨Queue.toList_push _ _, rfl, rfl, rfl, rfl⟩

/-- A host that answers too early and too late, and is impatient in between. -/
def hasty : List Call :=
  [.reply "1", .load ["READ \"n? \"", "PEEK"], .closeInput, .execute 9, .execute 3, .reply "7",
    .reply "8"]

/-- The machine of the hasty host while it waits for its line. -/
def hastyQuestion : Machine :=
  (fresh (.ticking 0)).after [.reply "1", .load ["READ \"n? \"", "PEEK"], .closeInput, .execute 9]

theorem replies_reach_questions_hasty :
    (fresh (.ticking 0)).timely hasty = [.load ["READ \"n? \"", "PEEK"], .execute 9, .reply "7"] ∧
    (fresh (.ticking 0)).after [.load ["READ \"n? \"", "PEEK"], .execute 9, .reply "7"] =
      (fresh (.ticking 0)).after hasty ∧
    (∃ argument, hastyQuestion.AtQuestion argument ∧
      (Moment.mk hastyQuestion (.execute 3)).response =
        .event (.input (Memory.promptOf argument))) ∧
    hastyQuestion.queue.toList = [] ∧
    (hastyQuestion.reply "7").queue.toList = [.integer 7] := by
  have hcalls : (fresh (.ticking 0)).timely hasty =
      [.load ["READ \"n? \"", "PEEK"], .execute 9, .reply "7"] := by decide +kernel
  obtain ⟨hafter, -, -, hslices, hanswers⟩ := replies_reach_questions (.ticking 0) hasty
  rw [hcalls] at hafter hanswers
  have hslice : Moment.mk hastyQuestion (.execute 3) ∈ (fresh (.ticking 0)).trace hasty :=
    .tail _ (.tail _ (.tail _ (.tail _ (.head _))))
  have hanswer : Moment.mk hastyQuestion (.reply "7") ∈
      (fresh (.ticking 0)).trace [.load ["READ \"n? \"", "PEEK"], .execute 9, .reply "7"] :=
    .tail _ (.tail _ (.head _))
  have hempty : hastyQuestion.queue.toList = [] := by decide +kernel
  have hvalue : Value.ofReply "7" = .integer 7 := by decide +kernel
  have hback : (hastyQuestion.reply "7").queue.toList =
      hastyQuestion.queue.toList ++ [.ofReply "7"] := (hanswers _ hanswer "7" rfl).2.1
  refine ⟨hcalls, hafter, (hslices _ hslice (by decide +kernel)).2 3 rfl, hempty, ?_⟩
  rw [hback, hempty, hvalue]
  rfl

end Machine
end Fifo
