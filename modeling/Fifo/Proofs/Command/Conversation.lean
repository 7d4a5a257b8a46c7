import Fifo.Command.Session
import Fifo.Proofs.Machine.Halting
import Fifo.Proofs.Source.Rows
import Mathlib.Logic.Relation

/-!
# What a session reports

What happens between a machine and its host does not depend on how the host cuts the run: the next
event of a machine is that of any slice long enough to have one (`Machine.Raises`).  `Exchange.Told`
tells a run to its end in these terms: the events in order, each question answered with the next row
of the input, and the way it ends.

The loop of a session is compared with this story.  A story that has an end is what the loop shows,
whatever the length of its slices (`converse_of_told`), and what the loop shows is a story
(`told_of_converse`).  Hence the number of steps in a slice makes no difference.  The loop never
meets a machine that has stopped before, since it leaves as soon as one stops (`Round.live`).
-/

namespace Fifo

open Command

namespace Machine

/-- The next event of the machine that a user can notice, and the machine after it: those of a slice
that is long enough. -/
def Raises (m : Machine) (event : Event) (m' : Machine) : Prop :=
  event ≠ .running ∧ ∃ budget, m.execute budget = (m', event)

theorem raises_of_event {m : Machine} {event : Event} (budget : Nat)
    (h : (m.execute budget).2 = event) (hne : event ≠ .running) :
    m.Raises event (m.execute budget).1 :=
  ⟨hne, budget, Prod.ext rfl h⟩

/-- A slice that used up its steps puts off the next event. -/
theorem Raises.of_running {m m₁ m' : Machine} {event : Event} {budget : Nat}
    (h : m.execute budget = (m₁, .running)) (hraises : m₁.Raises event m') :
    m.Raises event m' := by
  obtain ⟨hne, more, hmore⟩ := hraises
  refine ⟨hne, budget + more, ?_⟩
  rw [execute_add, h, if_pos rfl, hmore]

/-- A slice that is shorter than one with an event has the same event, or it uses up its steps and
the event is still to come. -/
theorem execute_cases {m m' : Machine} {event : Event} {budget : Nat}
    (h : m.execute budget = (m', event)) (hne : event ≠ .running) (cycles : Nat) :
    m.execute cycles = (m', event) ∨
      ∃ m₁, cycles ≤ budget ∧ m.execute cycles = (m₁, .running) ∧
        m₁.execute (budget - cycles) = (m', event) := by
  rcases Nat.le_total cycles budget with hle | hle
  · have hsplit := execute_add cycles (budget - cycles) m
    rw [Nat.add_sub_cancel' hle, h] at hsplit
    by_cases hrunning : (m.execute cycles).2 = .running
    · rw [if_pos hrunning] at hsplit
      exact Or.inr ⟨_, hle, Prod.ext rfl hrunning, hsplit.symm⟩
    · rw [if_neg hrunning] at hsplit
      exact Or.inl hsplit.symm
  · have hsplit := execute_add budget (cycles - budget) m
    rw [Nat.add_sub_cancel' hle, h, if_neg hne] at hsplit
    exact Or.inl hsplit

end Machine

theorem Event.append_texts_nil (output : String) : output ++ texts [] = output := by
  simp [texts]

theorem Event.append_texts_cons (output : String) (event : Event) (events : List Event) :
    output ++ texts (event :: events) = output ++ event.shown ++ texts events := by
  simp [texts, String.join_cons, String.append_assoc]

/-- A machine, and the rows of input that its host has left for it. -/
structure Exchange where
  machine : Machine
  rows : List Bytes

namespace Exchange

/-- An event with which the exchange goes on, and the exchange after it.  A question is answered
with the line that the next row stands for; once there are no rows left, the input is closed. -/
inductive Next : Exchange → Event → Exchange → Prop
  | printed {m m' : Machine} {rows : List Bytes} {text : String} (h : m.Raises (.print text) m') :
      Next ⟨m, rows⟩ (.print text) ⟨m', rows⟩
  | answered {m m' : Machine} {row : Bytes} {rows : List Bytes} {prompt line : String}
      (h : m.Raises (.input prompt) m') (hrow : Source.Reads row line) :
      Next ⟨m, row :: rows⟩ (.input prompt) ⟨m'.reply line, rows⟩
  | refused {m m' : Machine} {prompt : String} (h : m.Raises (.input prompt) m') :
      Next ⟨m, []⟩ (.input prompt) ⟨m'.closeInput, []⟩

/-- How an exchange ends: the program ends it, it fails, or a question would have to be answered
with bytes that are no text. -/
inductive Finish where
  | exit (value : Int64)
  | fault (f : Fault)
  | unreadable (prompt : String)

/-- The exchange ends with the next event. -/
inductive Last : Exchange → Finish → Prop
  | exit {m m' : Machine} {rows : List Bytes} {value : Int64} (h : m.Raises (.exit value) m') :
      Last ⟨m, rows⟩ (.exit value)
  | fault {m m' : Machine} {rows : List Bytes} {f : Fault} (h : m.Raises (.fault f) m') :
      Last ⟨m, rows⟩ (.fault f)
  | unreadable {m m' : Machine} {row : Bytes} {rows : List Bytes} {prompt : String}
      (h : m.Raises (.input prompt) m') (hrow : ∀ text, row ≠ Text.bytes text) :
      Last ⟨m, row :: rows⟩ (.unreadable prompt)

/-- The exchange has an end: the events until then, in order, and how it ends. -/
inductive Told : Exchange → List Event → Finish → Prop
  | last {x : Exchange} {finish : Finish} (h : x.Last finish) : Told x [] finish
  | next {x y : Exchange} {event : Event} {events : List Event} {finish : Finish}
      (h : x.Next event y) (hrest : Told y events finish) : Told x (event :: events) finish

/-- One round of the loop of a session after which it goes on, with the event of the round. -/
inductive Round (cycles : Nat) : Exchange → Event → Exchange → Prop
  | running {m m' : Machine} {rows : List Bytes} (h : m.execute cycles = (m', .running)) :
      Round cycles ⟨m, rows⟩ .running ⟨m', rows⟩
  | printed {m m' : Machine} {rows : List Bytes} {text : String}
      (h : m.execute cycles = (m', .print text)) :
      Round cycles ⟨m, rows⟩ (.print text) ⟨m', rows⟩
  | asked {m m' m'' : Machine} {rows : List Bytes} {prompt : String}
      (h : m.execute cycles = (m', .input prompt)) (hanswer : answer rows.head? m' = .ok m'') :
      Round cycles ⟨m, rows⟩ (.input prompt) ⟨m'', rows.tail⟩

/-- The loop of a session comes from one exchange to another. -/
def Leads (cycles : Nat) : Exchange → Exchange → Prop :=
  Relation.ReflTransGen fun x y => ∃ event, Round cycles x event y

/-- What a session leaves behind that has shown `output` before the exchange ends. -/
def Finish.transcript (output : String) : Finish → Transcript
  | .exit value => .ended output (exitStatus value)
  | .fault f => .failed output f
  | .unreadable prompt => .failed (output ++ prompt) Source.notText

end Exchange

namespace Command

theorem answer_of_reads {row : Bytes} {line : String} (h : Source.Reads row line) (m : Machine) :
    answer (some row) m = .ok (m.reply line) := by
  rw [answer, h.reply_eq]
  rfl

theorem answer_unreadable {row : Bytes} (hrow : ∀ text, row ≠ Text.bytes text) (m : Machine) :
    answer (some row) m = .error Source.notText := by
  rw [answer, Source.reply, Source.decode_eq_error hrow]
  rfl

theorem answer_live {row : Option Bytes} {m m' : Machine} (hm : m.phase ≠ .stopped)
    (h : answer row m = .ok m') : m'.phase ≠ .stopped := by
  cases row with
  | none =>
      obtain rfl := Except.ok.inj h
      exact Machine.closeInput_live hm
  | some row =>
      by_cases hrow : ∃ text, row = Text.bytes text
      · obtain ⟨text, rfl⟩ := hrow
        obtain ⟨line, hline⟩ := Source.exists_reads text
        rw [answer_of_reads hline] at h
        obtain rfl := Except.ok.inj h
        exact Machine.reply_live hm _
      · rw [answer_unreadable fun text htext => hrow ⟨text, htext⟩] at h
        cases h

end Command

namespace Exchange

/-- A loop that goes on has a machine to go on with. -/
theorem Round.live {cycles : Nat} {x y : Exchange} {event : Event} (h : Round cycles x event y)
    (hx : x.machine.phase ≠ .stopped) : y.machine.phase ≠ .stopped := by
  cases h with
  | running h => exact (Machine.execute_live hx h).2 rfl
  | printed h => exact (Machine.execute_live hx h).2 rfl
  | asked h hanswer => exact answer_live ((Machine.execute_live hx h).2 rfl) hanswer

theorem Leads.live {cycles : Nat} {x y : Exchange} (h : Leads cycles x y)
    (hx : x.machine.phase ≠ .stopped) : y.machine.phase ≠ .stopped := by
  induction h with
  | refl => exact hx
  | tail _ hround ih =>
      obtain ⟨event, hround⟩ := hround
      exact hround.live ih

/-- A slice that used up its steps is no part of the story. -/
theorem Told.of_running {m m₁ : Machine} {rows : List Bytes} {events : List Event} {finish : Finish}
    {budget : Nat} (h : m.execute budget = (m₁, .running)) (htold : Told ⟨m₁, rows⟩ events finish) :
    Told ⟨m, rows⟩ events finish := by
  cases htold with
  | last hlast =>
      refine .last ?_
      cases hlast with
      | exit hraises => exact .exit (.of_running h hraises)
      | fault hraises => exact .fault (.of_running h hraises)
      | unreadable hraises hrow => exact .unreadable (.of_running h hraises) hrow
  | next hnext hrest =>
      refine .next ?_ hrest
      cases hnext with
      | printed hraises => exact .printed (.of_running h hraises)
      | answered hraises hrow => exact .answered (.of_running h hraises) hrow
      | refused hraises => exact .refused (.of_running h hraises)

end Exchange

namespace Command

open Exchange

/-- What a session does about an event, with `slices` slices left. -/
def respond (cycles slices : Nat) (m : Machine) (rows : List Bytes) (output : String) :
    Event → Option Transcript
  | .running => converse cycles slices m rows output
  | .print text => converse cycles slices m rows (output ++ text)
  | .input prompt => match answer rows.head? m with
    | .ok m' => converse cycles slices m' rows.tail (output ++ prompt)
    | .error f => some (.failed (output ++ prompt) f)
  | .exit value => some (.ended output (exitStatus value))
  | .fault f => some (.failed output f)
  | .stopped => some (.ended output 0)

/-- A session runs a slice and does something about its event. -/
theorem converse_succ (cycles slices : Nat) (m : Machine) (rows : List Bytes) (output : String) :
    converse cycles (slices + 1) m rows output =
      respond cycles slices (m.execute cycles).1 rows output (m.execute cycles).2 := by
  rw [converse]
  cases m.execute cycles with
  | mk m' event => cases event <;> rfl

/-- A round is what the loop of a session does in one slice. -/
theorem converse_round {cycles : Nat} {x y : Exchange} {event : Event} (h : Round cycles x event y)
    (slices : Nat) (output : String) :
    converse cycles (slices + 1) x.machine x.rows output =
      converse cycles slices y.machine y.rows (output ++ event.shown) := by
  rw [converse_succ]
  cases h with
  | running h =>
      have hnothing : output ++ Event.shown .running = output := String.append_empty
      rw [h, hnothing]
      rfl
  | printed h =>
      rw [h]
      rfl
  | asked h hanswer =>
      rw [h, respond, hanswer]
      rfl

/-- A session comes to the next event of its machine in slices of any length but none. -/
theorem converse_reaches {cycles : Nat} (hcycles : 0 < cycles) {m m' : Machine} {event : Event}
    (h : m.Raises event m') :
    ∃ n, ∀ slices rows output,
      converse cycles (n + 1 + slices) m rows output =
        respond cycles slices m' rows output event := by
  obtain ⟨hne, budget, hbudget⟩ := h
  induction budget using Nat.strongRecOn generalizing m with
  | ind budget ih =>
      rcases Machine.execute_cases hbudget hne cycles with hnow | ⟨m₁, hle, hrunning, hlater⟩
      · refine ⟨0, fun slices rows output => ?_⟩
        rw [Nat.zero_add, Nat.add_comm, converse_succ, hnow]
      · obtain ⟨n, hlead⟩ := ih (budget - cycles) (by omega) hlater
        refine ⟨n + 1, fun slices rows output => ?_⟩
        rw [Nat.add_right_comm, converse_succ, hrunning]
        exact hlead slices rows output

/-- A story is what a session shows: if the exchange has an end, the session ends too once it may
run enough slices, and leaves behind what the story says. -/
theorem converse_of_told {cycles : Nat} (hcycles : 0 < cycles) {x : Exchange} {events : List Event}
    {finish : Finish} (h : x.Told events finish) (output : String) :
    ∃ n, ∀ extra, converse cycles (n + extra) x.machine x.rows output =
      some (finish.transcript (output ++ Event.texts events)) := by
  induction h generalizing output with
  | last hlast =>
      rw [Event.append_texts_nil]
      cases hlast with
      | exit hraises =>
          obtain ⟨n, hn⟩ := converse_reaches hcycles hraises
          exact ⟨n + 1, fun extra => hn extra _ output⟩
      | fault hraises =>
          obtain ⟨n, hn⟩ := converse_reaches hcycles hraises
          exact ⟨n + 1, fun extra => hn extra _ output⟩
      | unreadable hraises hrow =>
          obtain ⟨n, hn⟩ := converse_reaches hcycles hraises
          refine ⟨n + 1, fun extra => (hn extra _ output).trans ?_⟩
          rw [respond, List.head?_cons, answer_unreadable hrow]
          rfl
  | @next x y event events finish hnext hrest ih =>
      obtain ⟨k, hk⟩ := ih (output ++ event.shown)
      rw [Event.append_texts_cons]
      cases hnext with
      | printed hraises =>
          obtain ⟨n, hn⟩ := converse_reaches hcycles hraises
          refine ⟨n + 1 + k, fun extra => ?_⟩
          rw [Nat.add_assoc, hn]
          exact hk extra
      | answered hraises hrow =>
          obtain ⟨n, hn⟩ := converse_reaches hcycles hraises
          refine ⟨n + 1 + k, fun extra => ?_⟩
          rw [Nat.add_assoc, hn, respond, List.head?_cons, answer_of_reads hrow]
          exact hk extra
      | refused hraises =>
          obtain ⟨n, hn⟩ := converse_reaches hcycles hraises
          refine ⟨n + 1 + k, fun extra => ?_⟩
          rw [Nat.add_assoc, hn]
          exact hk extra

/-- What a session shows is a story: it ends only where the exchange has an end. -/
theorem told_of_converse {cycles slices : Nat} {x : Exchange} {output : String} {t : Transcript}
    (hx : x.machine.phase ≠ .stopped)
    (h : converse cycles slices x.machine x.rows output = some t) :
    ∃ events finish, x.Told events finish ∧
      t = finish.transcript (output ++ Event.texts events) := by
  induction slices generalizing x output with
  | zero => cases h
  | succ slices ih =>
      obtain ⟨m, rows⟩ := x
      -- A round that goes on puts its event before the story of the rest.
      have hmore : ∀ {y : Exchange} {event : Event}, Round cycles ⟨m, rows⟩ event y →
          Exchange.Next ⟨m, rows⟩ event y →
          ∃ events finish, Told ⟨m, rows⟩ events finish ∧
            t = finish.transcript (output ++ Event.texts events) := by
        intro y event hround hnext
        have hrest := (converse_round hround slices output).symm.trans h
        obtain ⟨events, finish, htold, ht⟩ := ih (hround.live hx) hrest
        exact ⟨event :: events, finish, .next hnext htold,
          ht.trans (by rw [Event.append_texts_cons])⟩
      rw [converse_succ] at h
      cases hslice : m.execute cycles with
      | mk m' event =>
          rw [hslice] at h
          cases event with
          | running =>
              obtain ⟨events, finish, htold, ht⟩ := ih ((Round.running hslice).live hx) h
              exact ⟨events, finish, .of_running hslice htold, ht⟩
          | print text => exact hmore (.printed hslice) (.printed ⟨by simp, cycles, hslice⟩)
          | input prompt =>
              have hraises : m.Raises (.input prompt) m' := ⟨by simp, cycles, hslice⟩
              cases rows with
              | nil => exact hmore (.asked hslice rfl) (.refused hraises)
              | cons row rows =>
                  by_cases hrow : ∃ text, row = Text.bytes text
                  · obtain ⟨text, rfl⟩ := hrow
                    obtain ⟨line, hline⟩ := Source.exists_reads text
                    have hanswer := answer_of_reads hline m'
                    exact hmore (.asked hslice hanswer) (.answered hraises hline)
                  · have hunreadable : ∀ text, row ≠ Text.bytes text :=
                      fun text htext => hrow ⟨text, htext⟩
                    rw [respond, List.head?_cons, answer_unreadable hunreadable] at h
                    refine ⟨[], .unreadable prompt, .last (.unreadable hraises hunreadable), ?_⟩
                    rw [Event.append_texts_nil]
                    exact (Option.some.inj h).symm
          | exit value =>
              refine ⟨[], .exit value, .last (.exit ⟨by simp, cycles, hslice⟩), ?_⟩
              rw [Event.append_texts_nil]
              exact (Option.some.inj h).symm
          | fault f =>
              refine ⟨[], .fault f, .last (.fault ⟨by simp, cycles, hslice⟩), ?_⟩
              rw [Event.append_texts_nil]
              exact (Option.some.inj h).symm
          | stopped => exact absurd rfl (Machine.execute_live hx hslice).1

end Command
end Fifo
