import Fifo.Proofs.Machine.Step
import Fifo.Proofs.Statement.Grammar
import Mathlib.Logic.ExistsUnique

/-!
# Conditional jumps

The four conditional jumps differ in the relation that they test, and in nothing else.  Before it is
tested, the target must stand for a line, the queue must have two values, and the two in front must
be integers; the first of these that fails is the fault.  `Memory.grounds` computes what comes of
it, and `Memory.perform_branch` says that all four jumps go by the same grounds.  What is left is
about two numbers: the first of them is less, they are equal, or it is greater.
-/

namespace Fifo
namespace Relation

/-- Are two numbers in the relation? -/
def Between (l r : Int) : Relation → Prop
  | equal => l = r
  | notEqual => l ≠ r
  | less => l < r
  | greater => r < l

instance (l r : Int) (relation : Relation) : Decidable (relation.Between l r) :=
  match relation with
  | equal => inferInstanceAs (Decidable (l = r))
  | notEqual => inferInstanceAs (Decidable (l ≠ r))
  | less => inferInstanceAs (Decidable (l < r))
  | greater => inferInstanceAs (Decidable (r < l))

/-- Testing integers is comparing the numbers that they are, signs included. -/
theorem holds_iff (l r : Int64) (relation : Relation) :
    relation.holds l r = true ↔ relation.Between l.toInt r.toInt := by
  cases relation with
  | equal =>
      show (l == r) = true ↔ l.toInt = r.toInt
      rw [beq_iff_eq, Int64.toInt_inj]
  | notEqual =>
      show (l != r) = true ↔ l.toInt ≠ r.toInt
      rw [bne_iff_ne, Ne, Ne, Int64.toInt_inj]
  | less =>
      show decide (l < r) = true ↔ l.toInt < r.toInt
      rw [decide_eq_true_iff, Int64.lt_iff_toInt_lt]
  | greater =>
      show decide (r < l) = true ↔ r.toInt < l.toInt
      rw [decide_eq_true_iff, Int64.lt_iff_toInt_lt]

/-- Of two numbers, exactly one of three relations holds. -/
theorem existsUnique_between (l r : Int) :
    ∃! relation : Relation, relation ≠ .notEqual ∧ relation.Between l r := by
  have hunique : ∀ {relation relation' : Relation}, relation ≠ .notEqual → relation' ≠ .notEqual →
      relation.Between l r → relation'.Between l r → relation' = relation := by
    intro relation relation' hne hne' hholds hholds'
    cases relation <;> cases relation' <;> simp_all [Between] <;> omega
  rcases Int.lt_trichotomy l r with hless | hequal | hgreater
  · exact ⟨.less, ⟨by decide, hless⟩, fun _ h => hunique (by decide) h.1 hless h.2⟩
  · exact ⟨.equal, ⟨by decide, hequal⟩, fun _ h => hunique (by decide) h.1 hequal h.2⟩
  · exact ⟨.greater, ⟨by decide, hgreater⟩, fun _ h => hunique (by decide) h.1 hgreater h.2⟩

/-- What a conditional jump asks for, once there is a line to go to and there are two integers to
test. -/
def decision (relation : Relation) : Nat × Int64 × Int64 → Outcome
  | (address, l, r) => if relation.holds l r then .jump address else .next

theorem decision_eq (relation : Relation) (address : Nat) (l r : Int64) :
    relation.decision (address, l, r) =
      if relation.Between l.toInt r.toInt then .jump address else .next := by
  rw [decision]
  exact if_congr (holds_iff l r relation) rfl rfl

/-- To be less is to be greater with the sides exchanged. -/
theorem decision_less (address : Nat) (l r : Int64) :
    decision .less (address, l, r) = decision .greater (address, r, l) := by
  rw [decision_eq, decision_eq]
  exact if_congr Iff.rfl rfl rfl

end Relation

namespace Memory

/-- What all conditional jumps to a target go by: the line to go to and the two integers to test, or
the first fault on the way to them. -/
def grounds (p : Program) (target : Target) (m : Memory) : Except Fault (Nat × Int64 × Int64) :=
  match p.resolve target with
  | .error f => .error f
  | .ok address =>
      match m.queue.toList with
      | .integer l :: .integer r :: _ => .ok (address, l, r)
      | _ :: _ :: _ => .error (.of .operationMismatch)
      | _ => .error (.of .notEnoughArguments)

/-- A conditional jump tests its relation on the grounds that it shares with the others, and leaves
the memory as it is. -/
theorem perform_branch (p : Program) (relation : Relation) (target : Target) (m : Memory) :
    m.perform p (.branch relation target) = (m, (m.grounds p target).map relation.decision) := by
  show m.branch p relation target = _
  unfold branch grounds
  cases hres : p.resolve target with
  | error f => rfl
  | ok address =>
      rw [Queue.firstTwo_eq]
      match m.queue.toList with
      | [] => rfl
      | [a] => cases a <;> rfl
      | .integer l :: .integer r :: tail => rfl
      | .integer l :: .text s :: tail => rfl
      | .text s :: b :: tail => rfl

/-- There are grounds for a decision only if the target stands for a line. -/
theorem resolve_of_grounds {p : Program} {target : Target} {m : Memory} {address : Nat}
    {l r : Int64} (h : m.grounds p target = .ok (address, l, r)) :
    p.resolve target = .ok address := by
  rw [grounds] at h
  cases hres : p.resolve target with
  | error f =>
      rw [hres] at h
      cases h
  | ok found =>
      simp only [hres] at h
      split at h
      · cases h
        rfl
      · cases h
      · cases h

section Resolved

variable {p : Program} {target : Target} {address : Nat} (hres : p.resolve target = .ok address)

include hres

theorem grounds_of_integers {m : Memory} {l r : Int64} {tail : List Value}
    (hlist : m.queue.toList = .integer l :: .integer r :: tail) :
    m.grounds p target = .ok (address, l, r) := by
  rw [grounds, hres, hlist]

theorem grounds_eq_short_iff (m : Memory) :
    m.grounds p target = .error (.of .notEnoughArguments) ↔ m.queue.length < 2 := by
  rw [grounds, hres, ← Queue.length_toList]
  match m.queue.toList with
  | [] => simp
  | [a] => simp
  | .integer l :: .integer r :: tail => simp
  | .integer l :: .text s :: tail => simp [Fault.of]
  | .text s :: b :: tail => simp [Fault.of]

theorem grounds_eq_mismatch_iff (m : Memory) :
    m.grounds p target = .error (.of .operationMismatch) ↔
      ∃ a b tail, m.queue.toList = a :: b :: tail ∧
        (a.isInteger = false ∨ b.isInteger = false) := by
  rw [grounds, hres]
  match m.queue.toList with
  | [] => simp [Fault.of]
  | [a] => simp [Fault.of]
  | .integer l :: .integer r :: tail => simp [Value.isInteger]
  | .integer l :: .text s :: tail => simp [Value.isInteger]
  | .text s :: b :: tail => simp [Value.isInteger]

end Resolved

/-- If the two values in front change places, so do the integers to test. -/
theorem grounds_of_swap {m n : Memory} (p : Program) (target : Target) {a b : Value}
    {tail : List Value} (hm : m.queue.toList = a :: b :: tail)
    (hn : n.queue.toList = b :: a :: tail) :
    n.grounds p target = (m.grounds p target).map fun (address, l, r) => (address, r, l) := by
  rw [grounds, grounds, hm, hn]
  cases p.resolve target with
  | error f => rfl
  | ok address => cases a <;> cases b <;> rfl

end Memory

/-- The words of the conditional jumps, each with the relation that it tests. -/
def conditionals : List (String × Relation) :=
  [("IFEQ", .equal), ("IFNQ", .notEqual), ("IFLT", .less), ("IFGT", .greater)]

theorem spelling_of_mem_conditionals {word : String} {relation : Relation}
    (h : (word, relation) ∈ conditionals) : (Keyword.branch relation).spelling = word := by
  have hall : ∀ c ∈ conditionals, (Keyword.branch c.2).spelling = c.1 := by decide
  exact hall (word, relation) h

/-- The line is written as a conditional jump: the word of the relation, and behind it the target,
with any blanks around the two. -/
def Line.WritesBranch (l : Line) (relation : Relation) (target : Target) : Prop :=
  ∃ layout : Layout, layout.Proper ∧ layout.text = l.text.toList ∧
    (String.ofList layout.keyword, relation) ∈ conditionals ∧
    layout.argument ≠ [] ∧ Target.Aims layout.argument target

theorem Line.WritesBranch.decode_eq {l : Line} {relation : Relation} {target : Target}
    (h : l.WritesBranch relation target) (number : Nat) :
    l.decode number = .ok (some (.branch relation target)) := by
  obtain ⟨layout, hproper, htext, hword, hne, haims⟩ := h
  have hkeyword : (Keyword.branch relation).spelling.toList = layout.keyword := by
    rw [spelling_of_mem_conditionals hword, String.toList_ofList]
  have hidle : ¬ Line.Idle l.text.toList := by
    rw [← htext]
    refine Line.not_idle_of_proper hproper ?_
    rw [← hkeyword]
    exact (Keyword.spelling_spec _).2.2
  rw [Line.decode_of_layout hidle hproper htext, Phrase.decode_eq_some_iff]
  exact ⟨.branch relation, hkeyword, .branch relation hne haims⟩

namespace Machine

/-- What the conditional jump with a relation comes to: what it asks for, or its fault. -/
def ruling (m : Machine) (target : Target) (relation : Relation) : Except Fault Outcome :=
  (m.memory.perform m.program (.branch relation target)).2

def Jumps (m : Machine) (target : Target) (relation : Relation) : Prop :=
  ∃ address, m.ruling target relation = .ok (.jump address)

/-- What the conditional jumps to a target have in common, and what sets them apart. -/
structure BranchesAgree (m : Machine) (target : Target) : Prop where
  /-- If one of them fails, all do, and with the same fault. -/
  same_fault : ∀ (relation relation' : Relation) (f : Fault),
    m.ruling target relation = .error f → m.ruling target relation' = .error f
  /-- They fail if the target stands for no line, whatever is in the queue. -/
  nowhere : ∀ f, m.program.resolve target = .error f →
    ∀ relation, m.ruling target relation = .error f
  /-- If it stands for one, they fail for want of values exactly if there are fewer than two. -/
  short : ∀ address, m.program.resolve target = .ok address → ∀ relation,
    (m.ruling target relation = .error (.of .notEnoughArguments) ↔ m.queue.length < 2)
  /-- If it stands for one, they mismatch exactly if one of the two values in front is a text. -/
  mismatched : ∀ address, m.program.resolve target = .ok address → ∀ relation,
    (m.ruling target relation = .error (.of .operationMismatch) ↔
      ∃ a b tail, m.queue.toList = a :: b :: tail ∧ (a.isInteger = false ∨ b.isInteger = false))
  /-- They do not fail for any other reason: two integers are compared as numbers. -/
  decided : ∀ address l r tail, m.program.resolve target = .ok address →
    m.queue.toList = .integer l :: .integer r :: tail → ∀ relation,
    m.ruling target relation =
      .ok (if relation.Between l.toInt r.toInt then .jump address else .next)
  /-- If they do not fail, exactly one of three jumps. -/
  one_jumps : ∀ relation outcome, m.ruling target relation = .ok outcome →
    ∃! relation', relation' ≠ .notEqual ∧ m.Jumps target relation'
  /-- If they do not fail, the fourth jumps exactly if the first does not. -/
  notEqual_jumps : ∀ relation outcome, m.ruling target relation = .ok outcome →
    (m.Jumps target .notEqual ↔ ¬ m.Jumps target .equal)
  /-- If the two values in front change places, two of them exchange what they come to. -/
  swapped : ∀ (n : Machine) (a b : Value) (tail : List Value), n.program = m.program →
    m.queue.toList = a :: b :: tail → n.queue.toList = b :: a :: tail →
    n.ruling target .less = m.ruling target .greater ∧
      n.ruling target .greater = m.ruling target .less
  /-- A jump goes to the line that the target stands for and changes nothing else. -/
  jump : ∀ relation, m.Jumps target relation → ∃ address,
    m.program.resolve target = .ok address ∧
      m.perform (.branch relation target) = ({ m with pc := address }, none)
  /-- Without a jump, the machine goes on with the next line and changes nothing else. -/
  next : ∀ relation outcome, m.ruling target relation = .ok outcome → ¬ m.Jumps target relation →
    m.perform (.branch relation target) = ({ m with pc := m.pc + 1 }, none)
  /-- With a fault, the machine stops where it is and changes nothing else. -/
  fault : ∀ relation f, m.ruling target relation = .error f →
    m.perform (.branch relation target) =
      ({ m with phase := .stopped }, some (.fault (f.inLine m.pc)))

theorem ruling_eq (m : Machine) (target : Target) (relation : Relation) :
    m.ruling target relation = (m.memory.grounds m.program target).map relation.decision := by
  rw [ruling, Memory.perform_branch]

theorem ruling_eq_error_iff (m : Machine) (target : Target) (relation : Relation) (f : Fault) :
    m.ruling target relation = .error f ↔ m.memory.grounds m.program target = .error f := by
  rw [ruling_eq]
  cases m.memory.grounds m.program target <;> simp [Except.map]

/-- The machine does what the conditional jump comes to, and keeps its memory. -/
theorem perform_branch (m : Machine) (target : Target) (relation : Relation) :
    m.perform (.branch relation target) = match m.ruling target relation with
      | .error f => ({ m with phase := .stopped }, some (.fault (f.inLine m.pc)))
      | .ok outcome => m.follow outcome := by
  rw [perform, ruling, Memory.perform_branch]
  cases (m.memory.grounds m.program target).map relation.decision <;> rfl

/-- If a conditional jump does not fail, its target stands for a line, and all four are decided by
the same two integers. -/
theorem exists_integers {m : Machine} {target : Target} {relation : Relation} {outcome : Outcome}
    (h : m.ruling target relation = .ok outcome) :
    ∃ (address : Nat) (l r : Int64), m.program.resolve target = .ok address ∧
      ∀ relation', m.ruling target relation' =
        .ok (if relation'.Between l.toInt r.toInt then .jump address else .next) := by
  rw [ruling_eq] at h
  cases hgrounds : m.memory.grounds m.program target with
  | error f =>
      rw [hgrounds] at h
      cases h
  | ok found =>
      obtain ⟨address, l, r⟩ := found
      refine ⟨address, l, r, Memory.resolve_of_grounds hgrounds, fun relation' => ?_⟩
      rw [ruling_eq, hgrounds, ← Relation.decision_eq]
      rfl

theorem jumps_iff {m : Machine} {target : Target} {relation : Relation} {holds : Prop}
    [Decidable holds] {address : Nat}
    (h : m.ruling target relation = .ok (if holds then .jump address else .next)) :
    m.Jumps target relation ↔ holds := by
  rw [Jumps, h]
  by_cases hholds : holds
  · simp [hholds]
  · simp [hholds]

/-- If the two values in front change places, a jump to a lesser number becomes one to a greater. -/
theorem ruling_of_swap {m n : Machine} (target : Target) {a b : Value} {tail : List Value}
    (hprogram : n.program = m.program) (hm : m.queue.toList = a :: b :: tail)
    (hn : n.queue.toList = b :: a :: tail) :
    n.ruling target .less = m.ruling target .greater := by
  have hgrounds := Memory.grounds_of_swap m.program target hm hn
  rw [ruling_eq, ruling_eq, hprogram, hgrounds]
  cases m.memory.grounds m.program target with
  | error f => simp only [Except.map]
  | ok found =>
      obtain ⟨address, l, r⟩ := found
      simp only [Except.map, Relation.decision_less]

theorem perform_of_jumps {m : Machine} {target : Target} {relation : Relation}
    (h : m.Jumps target relation) : ∃ address, m.program.resolve target = .ok address ∧
      m.perform (.branch relation target) = ({ m with pc := address }, none) := by
  obtain ⟨found, hjump⟩ := h
  obtain ⟨address, l, r, hres, hall⟩ := exists_integers hjump
  have hholds := (jumps_iff (hall relation)).mp ⟨found, hjump⟩
  refine ⟨address, hres, ?_⟩
  rw [perform_branch, hall, if_pos hholds]
  rfl

theorem perform_of_not_jumps {m : Machine} {target : Target} {relation : Relation}
    {outcome : Outcome} (h : m.ruling target relation = .ok outcome)
    (hstays : ¬ m.Jumps target relation) :
    m.perform (.branch relation target) = ({ m with pc := m.pc + 1 }, none) := by
  obtain ⟨address, l, r, -, hall⟩ := exists_integers h
  have hfails := mt (jumps_iff (hall relation)).mpr hstays
  rw [perform_branch, hall, if_neg hfails]
  rfl

/-- A step in a line that is written as a conditional jump performs that jump. -/
theorem step_of_writesBranch {m : Machine} {l : Line} {relation : Relation} {target : Target}
    (hline : m.program.line? m.pc = some l) (hwritten : l.WritesBranch relation target) :
    m.step = m.perform (.branch relation target) := by
  have hdecoded : m.program.statementAt m.pc = .ok (some (.branch relation target)) := by
    rw [Program.statementAt_eq, hline]
    exact hwritten.decode_eq m.pc
  exact step_of_statementAt (pc_lt_of_statementAt hdecoded) hdecoded

/-- **The conditional jumps agree.**  A line with the word of one of them, and a target behind it,
is performed as that jump, whatever blanks it has.  For every machine and every target, the four
fail together and with the same fault: that of the target if it stands for no line, else that there
are too few values, else that one of the two in front is a text.  If they do not fail, exactly one
of `IFEQ`, `IFLT` and `IFGT` jumps, and `IFNQ` does exactly if `IFEQ` does not; which one it is, the
two numbers in front say.  If these change places, `IFLT` and `IFGT` exchange what they come to.  A
jump goes to the line of its target, without one the next line follows, and the queue stays as it is
in any case. -/
theorem conditional_jumps_agree :
    (∀ (m : Machine) (l : Line) (relation : Relation) (target : Target),
      m.program.line? m.pc = some l → l.WritesBranch relation target →
      m.step = m.perform (.branch relation target)) ∧
    ∀ (m : Machine) (target : Target), m.BranchesAgree target := by
  refine ⟨fun m l relation target => step_of_writesBranch, fun m target => ?_⟩
  exact {
    same_fault := by
      intro relation relation' f h
      rw [ruling_eq_error_iff] at h ⊢
      exact h
    nowhere := by
      intro f hres relation
      rw [ruling_eq_error_iff, Memory.grounds, hres]
    short := by
      intro address hres relation
      rw [ruling_eq_error_iff]
      exact Memory.grounds_eq_short_iff hres m.memory
    mismatched := by
      intro address hres relation
      rw [ruling_eq_error_iff]
      exact Memory.grounds_eq_mismatch_iff hres m.memory
    decided := by
      intro address l r tail hres hlist relation
      rw [ruling_eq, Memory.grounds_of_integers hres hlist, ← Relation.decision_eq]
      rfl
    one_jumps := by
      intro relation outcome h
      obtain ⟨address, l, r, -, hall⟩ := exists_integers h
      simp only [jumps_iff (hall _)]
      exact Relation.existsUnique_between l.toInt r.toInt
    notEqual_jumps := by
      intro relation outcome h
      obtain ⟨address, l, r, -, hall⟩ := exists_integers h
      rw [jumps_iff (hall _), jumps_iff (hall _)]
      exact Iff.rfl
    swapped := fun n a b tail hprogram hm hn =>
      ⟨ruling_of_swap target hprogram hm hn, (ruling_of_swap target hprogram.symm hn hm).symm⟩
    jump := fun relation => perform_of_jumps
    next := fun relation outcome => perform_of_not_jumps
    fault := by
      intro relation f h
      rw [perform_branch, h] }

/-- A machine with a negative number in front of a positive one, in a line that jumps if the first
is less. -/
def atComparison : Machine :=
  ((fresh (.ticking 0)).load ["PUSH -5", "PUSH 3", " IFLT\tEND", "RET", "|END|"]).1.execute 2 |>.1

/-- The layout of that line. -/
def comparisonLayout : Layout where
  before := [' ']
  keyword := "IFLT".toList
  gap := ['\t']
  argument := "END".toList
  after := []

theorem conditional_jumps_agree_atComparison :
    atComparison.pc = 2 ∧ atComparison.step = ({ atComparison with pc := 4 }, none) ∧
      atComparison.ruling (.label "END") .greater = .ok .next ∧
      (∀ relation, atComparison.ruling (.label "TOP") relation =
        .error (.because .unresolvedJumpTarget "TOP")) := by
  obtain ⟨hwords, hagree⟩ := conditional_jumps_agree
  have hproper : comparisonLayout.Proper :=
    ⟨by decide, by decide, by decide, by decide, (Keyword.branch .less).spelling_spec.2.1,
      Or.inr ⟨by decide, ⟨'E', rfl, rfl⟩, ⟨'D', rfl, rfl⟩⟩⟩
  have hwritten : (Line.ofString " IFLT\tEND").WritesBranch .less (.label "END") :=
    ⟨comparisonLayout, hproper, by decide, by decide, by decide,
      (Target.ofString_eq_iff "END" _).mp (by decide)⟩
  have htarget : atComparison.program.resolve (.label "END") = .ok 4 := by decide +kernel
  have hstep := hwords atComparison _ .less (.label "END") (by decide +kernel) hwritten
  have hruling := (hagree atComparison (.label "END")).decided 4 (-5) 3 [] htarget
    (by decide +kernel)
  obtain ⟨address, hres, hperform⟩ := (hagree atComparison (.label "END")).jump .less
    ⟨4, hruling .less⟩
  obtain rfl : 4 = address := Except.ok.inj (htarget.symm.trans hres)
  refine ⟨by decide +kernel, hstep.trans hperform, hruling .greater, ?_⟩
  exact (hagree atComparison (.label "TOP")).nowhere _ (by decide +kernel)

end Machine
end Fifo
