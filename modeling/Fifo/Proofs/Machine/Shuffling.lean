import Fifo.Proofs.Machine.History
import Fifo.Proofs.Machine.Step
import Fifo.Proofs.Random.Positions
import Mathlib.Data.List.Forall2

/-!
# Shuffles follow the seed

Of all that a machine can do, only a shuffle of two values or more touches the generator that a seed
has given it, and what it does to the generator depends on the number of the values alone.  Along a
history without a new seed the generator is therefore handed on from each such shuffle to the next
(`Handed`, `handed_shuffles`).  Two histories from one seed may have nothing else in common: as long
as their shuffles have the same numbers of values, these move the values in the same way and leave
the same generator (`Handed.sameShuffle`).

A machine without a seed has no generator to begin with, and gets none (`Handed.eq_none`).
-/

namespace Fifo

namespace Memory

theorem combine_supply (op : Operation) (operands : Operands) (m : Memory) :
    (m.act (.combine op operands)).1.supply = m.supply := by
  rcases m.combine_cases op with ⟨-, htaken, hkept⟩ | ⟨a, b, rest, -, ⟨f, -, htaken, hkept⟩ |
    ⟨v, -, htaken, hkept⟩⟩
  · cases operands <;> simp only [act, htaken, hkept]
  · cases operands <;> simp only [act, htaken, hkept]
  · cases operands <;> simp only [act, htaken, hkept]

/-- A shuffle takes the values from the positions that its generator gives for their number, and
comes to the generator behind these. -/
theorem shuffle_positions (m : Memory) :
    m.shuffle.1.queue.toList.map some =
        (Random.positions m.supply.next m.queue.length).1.map (m.queue.toList[·]?) ∧
      m.shuffle.1.supply =
        m.supply.behind (Random.positions m.supply.next m.queue.length).2 := by
  have hpositions := Random.shuffle?_positions m.supply.next m.queue.toList
  rw [Queue.length_toList] at hpositions
  rw [← hpositions.1, ← hpositions.2, shuffle, Queue.shuffle]
  cases hshuffle : Random.shuffle? m.supply.next m.queue.toList with
  | none => exact ⟨rfl, rfl⟩
  | some r => exact ⟨congrArg _ (Queue.toList_ofList r.1), rfl⟩

/-- What a shuffle does to a generator depends on the number of the values alone. -/
theorem shuffle_generator (m : Memory) :
    m.shuffle.1.supply.generator? =
      m.supply.generator?.map fun g => (Random.positions g m.queue.length).2 := by
  rw [m.shuffle_positions.2, Random.Supply.generator?_behind]
  cases hgenerator : m.supply.generator? with
  | none => rfl
  | some g => rw [Random.Supply.next_of_generator? hgenerator, Option.map_some, Option.map_some]

/-- Only shuffling needs random words. -/
theorem act_supply {m : Memory} {a : Action} (h : a ≠ .shuffle) :
    (m.act a).1.supply = m.supply := by
  cases a with
  | combine op operands => exact combine_supply op operands m
  | nothing => rfl
  | peek ending =>
      simp only [act, peek]
      split <;> rfl
  | pop ending =>
      simp only [act, pop]
      split <;> rfl
  | popAll ending => rfl
  | display => rfl
  | shuffle => exact absurd rfl h
  | sort direction => rfl
  | exit =>
      simp only [act, exit]
      split <;> rfl

theorem branch_supply (p : Program) (relation : Relation) (target : Target) (m : Memory) :
    (m.branch p relation target).1.supply = m.supply := by
  unfold branch
  split
  · rfl
  · split <;> rfl

theorem perform_supply {m : Memory} (p : Program) {s : Statement} (h : s ≠ .act .shuffle) :
    (m.perform p s).1.supply = m.supply := by
  cases s with
  | act a => exact act_supply fun ha => h (congrArg _ ha)
  | goto target => rfl
  | branch relation target => exact branch_supply p relation target m
  | push literal => rfl
  | print literal => rfl
  | read prompt => rfl

/-- Only shuffling two values or more touches a generator. -/
theorem perform_generator {m : Memory} (p : Program) {s : Statement}
    (h : s = .act .shuffle → m.queue.length < 2) :
    (m.perform p s).1.supply.generator? = m.supply.generator? := by
  by_cases hs : s = .act .shuffle
  · have hnone : ∀ g, (Random.positions g m.queue.length).2 = g := fun g => by
      rw [Random.positions_of_lt_two (h hs)]
    subst hs
    change m.shuffle.1.supply.generator? = _
    simp only [shuffle_generator, hnone, Option.map_id']
  · rw [perform_supply p hs]

end Memory

namespace Machine

/-- Does the current line shuffle two values or more? -/
def isShuffling (m : Machine) : Bool :=
  match m.program.statementAt m.pc with
  | .ok (some (.act .shuffle)) => 2 ≤ m.queue.length
  | _ => false

end Machine

/-- The machines that a call shuffles two values or more of, in order. -/
def Moment.shuffles (t : Moment) : List Machine :=
  t.performing.filter Machine.isShuffling

namespace Machine

/-- The machines that a history of calls shuffles two values or more of, in order. -/
def shuffles (m : Machine) (calls : List Call) : List Machine :=
  (m.trace calls).flatMap Moment.shuffles

/-- The next step of the machine takes the values from the given positions, and it would do the same
to any other values, if there were as many. -/
structure ShufflesBy (m : Machine) (positions : List Nat) : Prop where
  perm : positions.Perm (List.range m.queue.length)
  moves : ∀ q : Queue Value, q.length = m.queue.length →
    { m with memory.queue := q }.step.1.queue.toList.map some = positions.map (q.toList[·]?)

/-- The next steps of two machines move their values in the same way, and leave the same
generator. -/
def SameShuffle (m n : Machine) : Prop :=
  ∃ positions left, m.ShufflesBy positions ∧ n.ShufflesBy positions ∧
    m.step.1.generator = some left ∧ n.step.1.generator = some left

/-- A generator is handed on from shuffle to shuffle: the first one finds it, each later one finds
what the one before has left, and the last one leaves the other generator. -/
inductive Handed : Option Random.Generator → List Machine → Option Random.Generator → Prop
  | nil (g : Option Random.Generator) : Handed g [] g
  | cons (m : Machine) (ms : List Machine) (g : Option Random.Generator)
      (hrest : Handed m.step.1.generator ms g) : Handed m.generator (m :: ms) g

theorem isShuffling_iff (m : Machine) :
    m.isShuffling = true ↔
      m.program.statementAt m.pc = .ok (some (.act .shuffle)) ∧ 2 ≤ m.queue.length := by
  unfold isShuffling
  split
  · next hline => exact ⟨fun h => ⟨hline, of_decide_eq_true h⟩, fun h => decide_eq_true h.2⟩
  · next hother => exact ⟨fun h => absurd h (by simp), fun h => absurd h.1 hother⟩

theorem step_of_isShuffling {m : Machine} (h : m.isShuffling = true) :
    m.step = ({ m with memory := m.memory.shuffle.1, pc := m.pc + 1 }, none) := by
  obtain ⟨hline, -⟩ := (isShuffling_iff m).mp h
  have hdone : m.memory.perform m.program (.act .shuffle) = (m.memory.shuffle.1, .ok .next) := rfl
  exact (Stepped.continued _ _ _ (pc_lt_of_statementAt hline) hline hdone (.inl rfl)).step_eq

/-- What a shuffle does to the generator depends on the number of the values alone. -/
theorem generator_of_isShuffling {m : Machine} (h : m.isShuffling = true) :
    m.step.1.generator =
      m.generator.map fun g => (Random.positions g m.queue.length).2 := by
  rw [step_of_isShuffling h]
  exact m.memory.shuffle_generator

/-- A shuffle moves the values as the generator says for their number. -/
theorem shufflesBy_of_isShuffling {m : Machine} (h : m.isShuffling = true) :
    m.ShufflesBy (Random.positions m.supply.next m.queue.length).1 where
  perm := Random.positions_perm _ _
  moves := by
    intro q hlength
    -- The line stays what it is with other values in the queue.
    have hq : { m with memory.queue := q }.isShuffling = true := by
      obtain ⟨hline, hmany⟩ := (isShuffling_iff m).mp h
      rw [← hlength] at hmany
      exact (isShuffling_iff _).mpr ⟨hline, hmany⟩
    rw [step_of_isShuffling hq, ← hlength]
    exact (Memory.mk q m.supply).shuffle_positions.1

theorem SameShuffle.of_generator_eq {m n : Machine} {g : Random.Generator}
    (hm : m.isShuffling = true) (hn : n.isShuffling = true) (hgm : m.generator = some g)
    (hgn : n.generator = some g) (hlength : m.queue.length = n.queue.length) :
    m.SameShuffle n := by
  refine ⟨(Random.positions g m.queue.length).1, (Random.positions g m.queue.length).2, ?_, ?_,
    ?_, ?_⟩
  · rw [← Random.Supply.next_of_generator? hgm]
    exact shufflesBy_of_isShuffling hm
  · rw [hlength, ← Random.Supply.next_of_generator? hgn]
    exact shufflesBy_of_isShuffling hn
  · rw [generator_of_isShuffling hm, hgm, Option.map_some]
  · rw [generator_of_isShuffling hn, hgn, hlength, Option.map_some]

/-- No other step touches the generator. -/
theorem generator_of_not_isShuffling {m : Machine} (h : m.isShuffling = false) :
    m.step.1.generator = m.generator := by
  have hkept : ∀ {s : Statement} {memory : Memory} {result : Except Fault Outcome},
      m.program.statementAt m.pc = .ok (some s) →
      m.memory.perform m.program s = (memory, result) →
      memory.supply.generator? = m.generator := by
    intro s memory result hline hdone
    have hfew : s = .act .shuffle → m.memory.queue.length < 2 := by
      rintro rfl
      refine Nat.lt_of_not_le fun hmany => ?_
      rw [(isShuffling_iff m).mpr ⟨hline, hmany⟩] at h
      cases h
    have hperform := Memory.perform_generator m.program hfew
    rw [hdone] at hperform
    exact hperform
  cases hstep : m.step with
  | mk m' event =>
      change m'.generator = m.generator
      cases stepped_of_step hstep with
      | ended hend => rfl
      | skipped hpc hline => rfl
      | undecoded f hpc hline => rfl
      | failed s memory f hpc hline hdone => exact hkept hline hdone
      | continued s memory outcome hpc hline hdone hsilent => exact hkept hline hdone
      | jumped s memory address hpc hline hdone => exact hkept hline hdone
      | printed s memory text hpc hline hdone htext => exact hkept hline hdone
      | asked s memory prompt hpc hline hdone => exact hkept hline hdone
      | exited s memory value hpc hline hdone => exact hkept hline hdone

theorem Handed.append {g g' g'' : Option Random.Generator} {ms ns : List Machine}
    (h : Handed g ms g') (h' : Handed g' ns g'') : Handed g (ms ++ ns) g'' := by
  induction h with
  | nil g => exact h'
  | cons m ms g hrest ih => exact .cons m (ms ++ ns) g'' (ih h')

theorem Handed.eq_of_nil {g g' : Option Random.Generator} (h : Handed g [] g') : g' = g := by
  cases h with
  | nil => rfl

/-- A step hands the generator on, to itself if it shuffles. -/
theorem handed_step (m : Machine) :
    Handed m.generator ([m].filter isShuffling) m.step.1.generator := by
  cases h : m.isShuffling with
  | true =>
      rw [List.filter_cons_of_pos h]
      exact .cons m [] _ (.nil _)
  | false =>
      rw [List.filter_cons_of_neg (by simp [h]), generator_of_not_isShuffling h]
      exact .nil _

/-- So do steps until there is an event. -/
theorem handed_steps (budget : Nat) (m : Machine) :
    Handed m.generator ((performing budget m).filter isShuffling)
      (steps budget m).1.generator := by
  induction budget generalizing m with
  | zero => exact .nil _
  | succ budget ih =>
      have hfirst := handed_step m
      rw [performing, steps]
      cases hstep : m.step with
      | mk m' event =>
          rw [hstep] at hfirst
          cases event with
          | some event => exact hfirst
          | none =>
              simp only
              rw [← List.singleton_append, List.filter_append]
              exact hfirst.append (ih m')

theorem load_generator (source : List String) (m : Machine) :
    (m.load source).1.generator = m.generator := by
  unfold load
  split <;> rfl

theorem interrupt_generator (m : Machine) : m.interrupt.generator = m.generator := by
  unfold interrupt
  split <;> rfl

theorem reply_generator (s : String) (m : Machine) : (m.reply s).generator = m.generator := by
  unfold reply
  split <;> rfl

theorem closeInput_generator (m : Machine) : m.closeInput.generator = m.generator := by
  unfold closeInput
  split <;> rfl

theorem handed_execute (budget : Nat) (m : Machine) :
    Handed m.generator (Moment.mk m (.execute budget)).shuffles (m.execute budget).1.generator := by
  unfold Moment.shuffles Moment.performing execute
  cases hphase : m.phase with
  | running => exact handed_steps budget m
  | stopped => exact .nil _
  | waiting prompt => exact .nil _
  | inputClosed => exact .nil _
  | interrupted => exact .nil _

/-- Every call but one for a new seed hands the generator on. -/
theorem handed_call (t : Moment) (ht : ∀ s, t.call ≠ .seed s) :
    Handed t.machine.generator t.shuffles t.next.generator := by
  obtain ⟨m, c⟩ := t
  cases c with
  | load source =>
      change Handed m.generator [] (m.load source).1.generator
      rw [load_generator]
      exact .nil _
  | seed s => exact absurd rfl (ht s)
  | interrupt =>
      change Handed m.generator [] m.interrupt.generator
      rw [interrupt_generator]
      exact .nil _
  | reply s =>
      change Handed m.generator [] (m.reply s).generator
      rw [reply_generator]
      exact .nil _
  | closeInput =>
      change Handed m.generator [] m.closeInput.generator
      rw [closeInput_generator]
      exact .nil _
  | execute budget => exact handed_execute budget m

/-- Along a history without a new seed, the generator is handed on from shuffle to shuffle. -/
theorem handed_shuffles {m : Machine} {calls : List Call} (hcalls : ∀ s, Call.seed s ∉ calls) :
    Handed m.generator (m.shuffles calls) (m.after calls).generator := by
  induction calls generalizing m with
  | nil => exact .nil _
  | cons c calls ih =>
      have hfirst := handed_call ⟨m, c⟩ fun s hc => hcalls s (hc ▸ List.mem_cons_self)
      have hrest := ih (m := m.call c) fun s hs => hcalls s (List.mem_cons_of_mem c hs)
      rw [shuffles, trace_cons, List.flatMap_cons]
      exact hfirst.append hrest

theorem isShuffling_of_mem_shuffles {m start : Machine} {calls : List Call}
    (h : start ∈ m.shuffles calls) : start.isShuffling = true := by
  obtain ⟨t, -, hstart⟩ := List.mem_flatMap.mp h
  exact (List.mem_filter.mp hstart).2

theorem Handed.take {g g' : Option Random.Generator} {ms : List Machine} (h : Handed g ms g')
    (k : Nat) : ∃ g'', Handed g (ms.take k) g'' := by
  induction h generalizing k with
  | nil g => exact ⟨g, by simpa using Handed.nil g⟩
  | cons m ms g hrest ih =>
      cases k with
      | zero => exact ⟨_, .nil _⟩
      | succ k =>
          obtain ⟨g'', htake⟩ := ih k
          exact ⟨g'', .cons m (ms.take k) g'' htake⟩

/-- Shuffles that find no generator leave none. -/
theorem Handed.eq_none {seeded a : Option Random.Generator} {ms : List Machine}
    (h : Handed seeded ms a) (hms : ∀ m ∈ ms, m.isShuffling = true) (hnone : seeded = none) :
    a = none := by
  induction h with
  | nil seeded => exact hnone
  | cons m ms a hrest ih =>
      rw [List.forall_mem_cons] at hms
      have hleft := generator_of_isShuffling hms.1
      rw [hnone] at hleft
      exact ih hms.2 hleft

/-- Two chains of shuffles that find the same generator, and shuffle the same numbers of values,
move them in the same way one by one and leave the same generator. -/
theorem Handed.sameShuffle {seeded a b : Option Random.Generator} {ms ns : List Machine}
    (hm : Handed seeded ms a) (hn : Handed seeded ns b) (hms : ∀ m ∈ ms, m.isShuffling = true)
    (hns : ∀ n ∈ ns, n.isShuffling = true)
    (hlengths : ms.map (·.queue.length) = ns.map (·.queue.length))
    {g : Random.Generator} (hseeded : seeded = some g) :
    List.Forall₂ SameShuffle ms ns ∧ ∃ left, a = some left ∧ b = some left := by
  induction hm generalizing ns g with
  | nil seeded =>
      obtain rfl : ns = [] := by simpa using hlengths.symm
      exact ⟨.nil, g, hseeded, hn.eq_of_nil.trans hseeded⟩
  | cons m ms a hrest ih =>
      generalize hfound : m.generator = found at hn hseeded
      cases hn with
      | nil => cases hlengths
      | cons n ns b hrest' =>
          obtain ⟨hlength, hlater⟩ := List.cons.inj hlengths
          rw [List.forall_mem_cons] at hms hns
          have hgm : m.generator = some g := hfound.trans hseeded
          have hsame := SameShuffle.of_generator_eq hms.1 hns.1 hgm hseeded hlength
          -- The generator that the two shuffles leave is the one that the later ones find.
          obtain ⟨positions, left, -, -, hleft, hleft'⟩ := id hsame
          rw [hleft', ← hleft] at hrest'
          obtain ⟨hall, hend⟩ := ih hrest' hms.2 hns.2 hlater hleft
          exact ⟨.cons hsame hall, hend⟩

/-- **Shuffles follow the seed.**  Take two histories that begin with the same seed and have no
other, whatever machines they start from and whatever is loaded, answered, interrupted and run in
them.  If their first `k` shuffles of two values or more have the same numbers of values, these
shuffles move the values in the same way, one by one, and leave the same generator; and if the
histories have no more such shuffles, they end with the same generator.  No other step touches the
generator, and no call does, other than for a new seed, in which there is no such shuffle.  A
machine that was never given a seed has no generator, whatever it shuffles. -/
theorem shuffles_follow_seed :
    (∀ (s : UInt64) (m n : Machine) (calls calls' : List Call) (k : Nat),
      (∀ s', Call.seed s' ∉ calls) → (∀ s', Call.seed s' ∉ calls') →
      (((m.seed s).shuffles calls).take k).map (·.queue.length) =
        (((n.seed s).shuffles calls').take k).map (·.queue.length) →
      List.Forall₂ SameShuffle (((m.seed s).shuffles calls).take k)
        (((n.seed s).shuffles calls').take k) ∧
      (((m.seed s).shuffles calls).length ≤ k → ((n.seed s).shuffles calls').length ≤ k →
        ∃ g, ((m.seed s).after calls).generator = some g ∧
          ((n.seed s).after calls').generator = some g)) ∧
    (∀ m : Machine, m.isShuffling = false → m.step.1.generator = m.generator) ∧
    (∀ t : Moment, (∀ s, t.call ≠ .seed s) → t.shuffles = [] →
      t.next.generator = t.machine.generator) ∧
    ∀ (clock : Random.Clock) (calls : List Call), (∀ s, Call.seed s ∉ calls) →
      ((fresh clock).after calls).generator = none := by
  refine ⟨fun s m n calls calls' k hcalls hcalls' hlengths => ?_,
    fun m => generator_of_not_isShuffling, fun t ht hnone => ?_, fun clock calls hcalls => ?_⟩
  · have hm := handed_shuffles (m := m.seed s) hcalls
    have hn := handed_shuffles (m := n.seed s) hcalls'
    change Handed (some (.ofSeed s)) _ _ at hm hn
    have hms : ∀ start ∈ (m.seed s).shuffles calls, start.isShuffling = true :=
      fun _ => isShuffling_of_mem_shuffles
    have hns : ∀ start ∈ (n.seed s).shuffles calls', start.isShuffling = true :=
      fun _ => isShuffling_of_mem_shuffles
    obtain ⟨a, htake⟩ := hm.take k
    obtain ⟨b, htake'⟩ := hn.take k
    refine ⟨(htake.sameShuffle htake' (fun start hs => hms start (List.mem_of_mem_take hs))
      (fun start hs => hns start (List.mem_of_mem_take hs)) hlengths rfl).1, fun hfew hfew' => ?_⟩
    rw [List.take_of_length_le hfew, List.take_of_length_le hfew'] at hlengths
    exact (hm.sameShuffle hn hms hns hlengths rfl).2
  · have hhanded := handed_call t ht
    rw [hnone] at hhanded
    exact hhanded.eq_of_nil
  · exact (handed_shuffles hcalls).eq_none (fun _ => isShuffling_of_mem_shuffles) rfl

/-- A program that shuffles three integers. -/
def threeIntegers : List Call :=
  [.load ["PUSH 1", "PUSH 2", "PUSH 3", "POKE", "POPALLLN"], .execute 9]

/-- After a program that is refused, one that shuffles nothing, asks for a line, shuffles it with
two texts and then fails. -/
def lineAndTexts : List Call :=
  [.load ["|TOP"], .execute 1, .load ["POKE", "READ", "PUSH \"b\"", "PUSH \"c\"", "POKE", "SUB"],
    .execute 4, .reply "5", .execute 1, .execute 7, .interrupt]

theorem shuffles_follow_seed_lineAndTexts :
    let first := ((fresh (.ticking 0)).seed 7).shuffles threeIntegers
    let second := ((fresh (.ticking 9)).seed 7).shuffles lineAndTexts
    first.map (fun m => (m.queue.length, m.step.1.queue.toList)) =
        [(3, [.integer 3, .integer 1, .integer 2])] ∧
      second.map (fun m => (m.queue.length, m.step.1.queue.toList)) =
        [(3, [.text "c", .integer 5, .text "b"])] ∧
      List.Forall₂ SameShuffle (first.take 1) (second.take 1) ∧
      (∃ g, (((fresh (.ticking 0)).seed 7).after threeIntegers).generator = some g ∧
        (((fresh (.ticking 9)).seed 7).after lineAndTexts).generator = some g) ∧
      ((fresh (.ticking 9)).seed 7).step.1.generator = some (.ofSeed 7) ∧
      ((fresh (.ticking 9)).seed 7).interrupt.generator = some (.ofSeed 7) ∧
      ((fresh (.ticking 0)).after threeIntegers).generator = none := by
  intro first second
  have hfirst : first.map (fun m => (m.queue.length, m.step.1.queue.toList)) =
      [(3, [.integer 3, .integer 1, .integer 2])] := by decide +kernel
  have hsecond : second.map (fun m => (m.queue.length, m.step.1.queue.toList)) =
      [(3, [.text "c", .integer 5, .text "b"])] := by decide +kernel
  have hlengths : (first.take 1).map (·.queue.length) = (second.take 1).map (·.queue.length) := by
    have hone := congrArg (List.map Prod.fst) hfirst
    have htwo := congrArg (List.map Prod.fst) hsecond
    rw [List.map_map] at hone htwo
    rw [List.map_take, List.map_take]
    exact congrArg (List.take 1) (hone.trans htwo.symm)
  have hfew : first.length ≤ 1 := by
    rw [← List.length_map, hfirst]
    exact Nat.le_refl 1
  have hfew' : second.length ≤ 1 := by
    rw [← List.length_map, hsecond]
    exact Nat.le_refl 1
  obtain ⟨hruns, hsteps, hcalls, hnone⟩ := shuffles_follow_seed
  obtain ⟨hsame, hend⟩ := hruns 7 (fresh (.ticking 0)) (fresh (.ticking 9)) threeIntegers
    lineAndTexts 1 (by simp [threeIntegers]) (by simp [lineAndTexts]) hlengths
  exact ⟨hfirst, hsecond, hsame, hend hfew hfew', hsteps ((fresh (.ticking 9)).seed 7) rfl,
    hcalls ⟨(fresh (.ticking 9)).seed 7, .interrupt⟩ (by simp) rfl,
    hnone (.ticking 0) threeIntegers (by simp [threeIntegers])⟩

end Machine
end Fifo
