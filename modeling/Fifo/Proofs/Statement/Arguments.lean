import Fifo.Proofs.Statement.Escapes
import Fifo.Proofs.Text.Numerals
import Fifo.Statement.Decode

/-!
# What may stand behind a keyword

The grammar of arguments, as relations between texts and what they stand for: literals
(`Literal.Denotes`), targets (`Target.Aims`), and the statements that a keyword makes
(`Keyword.Takes`) or the faults with which it refuses its argument (`Keyword.Refuses`).  Each comes
with the theorem that the corresponding reader follows it exactly.
-/

namespace Fifo
namespace Literal

/-- A literal is a quoted text, whatever stands between the quotation marks at its ends, or a
numeral of 64 bits. -/
inductive Denotes : List Char → Value → Prop
  | text {inner out : List Char} (hinner : Unescapes inner out) :
      Denotes (quote :: (inner ++ [quote])) (.text (String.ofList out))
  | integer {cs : List Char} {n : Int64} (hcs : Decimal.Numeral cs n.toInt) :
      Denotes cs (.integer n)

theorem quoted?_eq_some_iff (cs : List Char) (s : String) :
    quoted? cs = some s ↔
      ∃ inner out, cs = inner ++ [quote] ∧ Unescapes inner out ∧ s = String.ofList out := by
  unfold quoted?
  constructor
  · intro h
    split at h
    · next hlast =>
        obtain ⟨inner, rfl⟩ := List.getLast?_eq_some_iff.mp hlast
        rw [List.dropLast_concat] at h
        exact ⟨inner, unescape inner, rfl, (unescapes_iff _ _).mpr rfl, (Option.some.inj h).symm⟩
    · cases h
  · rintro ⟨inner, out, rfl, hinner, rfl⟩
    have hlast : (inner ++ [quote]).getLast? = some quote := List.getLast?_concat
    rw [if_pos hlast, List.dropLast_concat, (unescapes_iff _ _).mp hinner]

theorem not_numeral_quote {cs : List Char} {n : Int} : ¬ Decimal.Numeral (quote :: cs) n := by
  intro h
  cases h with
  | unsigned hds => exact absurd (hds.2 quote List.mem_cons_self) (by decide)

theorem ofChars?_eq_some_iff (cs : List Char) (v : Value) :
    ofChars? cs = some v ↔ Denotes cs v := by
  cases cs with
  | nil =>
      constructor
      · intro h
        cases h
      · intro h
        cases h with
        | integer hcs => exact absurd rfl hcs.ne_nil
  | cons c cs =>
      rw [ofChars?]
      -- A quotation mark at the head decides which of the two kinds of literal is meant.
      by_cases hc : c = quote
      · subst hc
        rw [if_pos rfl, Option.map_eq_some_iff]
        constructor
        · rintro ⟨s, hs, rfl⟩
          obtain ⟨inner, out, rfl, hinner, rfl⟩ := (quoted?_eq_some_iff cs s).mp hs
          exact .text hinner
        · intro h
          cases h with
          | text hinner => exact ⟨_, (quoted?_eq_some_iff _ _).mpr ⟨_, _, rfl, hinner, rfl⟩, rfl⟩
          | integer hcs => exact absurd hcs not_numeral_quote
      · rw [if_neg hc, Option.map_eq_some_iff]
        constructor
        · rintro ⟨n, hn, rfl⟩
          exact .integer ((Decimal.int64?_eq_some_iff _ n).mp hn)
        · intro h
          cases h with
          | text hinner => exact absurd rfl hc
          | integer hcs => exact ⟨_, (Decimal.int64?_eq_some_iff _ _).mpr hcs, rfl⟩

theorem Denotes.unique {cs : List Char} {v v' : Value} (h : Denotes cs v) (h' : Denotes cs v') :
    v = v' := by
  rw [← ofChars?_eq_some_iff] at h h'
  exact Option.some.inj (h.symm.trans h')

theorem Denotes.ne_nil {cs : List Char} {v : Value} (h : Denotes cs v) : cs ≠ [] := by
  cases h with
  | text hinner => exact List.cons_ne_nil _ _
  | integer hcs => exact hcs.ne_nil

theorem ofString?_eq_none_iff (s : String) :
    ofString? s = none ↔ ¬ ∃ v, Denotes s.toList v := by
  rw [ofString?, Option.eq_none_iff_forall_ne_some]
  simp [ofChars?_eq_some_iff]

end Literal

namespace Target

/-- A numeral of 64 bits is the number of a line, and any other text is a label. -/
inductive Aims : List Char → Target → Prop
  | line {cs : List Char} {n : Int64} (hcs : Decimal.Numeral cs n.toInt) : Aims cs (.line n)
  | label {cs : List Char} (hcs : ¬ ∃ n : Int64, Decimal.Numeral cs n.toInt) :
      Aims cs (.label (String.ofList cs))

theorem ofString_eq_iff (s : String) (t : Target) : ofString s = t ↔ Aims s.toList t := by
  unfold ofString
  cases hread : Decimal.int64? s.toList with
  | some n =>
      have hnumeral := (Decimal.int64?_eq_some_iff _ n).mp hread
      constructor
      · rintro rfl
        exact .line hnumeral
      · intro h
        cases h with
        | line hcs =>
            rw [← Decimal.int64?_eq_some_iff, hread] at hcs
            exact congrArg line (Option.some.inj hcs)
        | label hcs => exact absurd ⟨n, hnumeral⟩ hcs
  | none =>
      have hnot := (Decimal.int64?_eq_none_iff _).mp hread
      constructor
      · rintro rfl
        have haims := Aims.label hnot
        rwa [String.ofList_toList] at haims
      · intro h
        cases h with
        | line hcs => exact absurd ⟨_, hcs⟩ hnot
        | label hcs => simp

theorem Aims.unique {cs : List Char} {t t' : Target} (h : Aims cs t) (h' : Aims cs t') :
    t = t' := by
  have hread := (ofString_eq_iff (String.ofList cs) t).mpr (by rwa [String.toList_ofList])
  have hread' := (ofString_eq_iff (String.ofList cs) t').mpr (by rwa [String.toList_ofList])
  exact hread.symm.trans hread'

end Target

namespace Keyword

/-- What stands behind a keyword, and the statement that the two make. -/
inductive Takes : Keyword → List Char → Statement → Prop
  | act (a : Action) : Takes (.act a) [] (.act a)
  | goto {cs : List Char} {t : Target} (hne : cs ≠ []) (hcs : Target.Aims cs t) :
      Takes .goto cs (.goto t)
  | branch (r : Relation) {cs : List Char} {t : Target} (hne : cs ≠ [])
      (hcs : Target.Aims cs t) : Takes (.branch r) cs (.branch r t)
  | push {cs : List Char} {v : Value} (hcs : Literal.Denotes cs v) : Takes .push cs (.push v)
  | printNothing : Takes .print [] (.print none)
  | print {cs : List Char} {v : Value} (hcs : Literal.Denotes cs v) :
      Takes .print cs (.print (some v))
  | readNothing : Takes .read [] (.read none)
  | read {cs : List Char} {v : Value} (hcs : Literal.Denotes cs v) : Takes .read cs (.read (some v))

/-- What cannot stand behind a keyword, and the fault that it is. -/
inductive Refuses : Keyword → List Char → Fault → Prop
  | act (a : Action) {cs : List Char} (hne : cs ≠ []) :
      Refuses (.act a) cs (.because .unknownInstruction (a.spelling ++ " TAKES NO ARGUMENT"))
  | goto : Refuses .goto [] (.because .unknownInstruction "GOTO NEEDS A TARGET")
  | branch (r : Relation) :
      Refuses (.branch r) []
        (.because .unknownInstruction ("IF" ++ r.spelling ++ " NEEDS A TARGET"))
  | push {cs : List Char} (hcs : ¬ ∃ v, Literal.Denotes cs v) :
      Refuses .push cs (.of .invalidPush)
  | print {cs : List Char} (hne : cs ≠ []) (hcs : ¬ ∃ v, Literal.Denotes cs v) :
      Refuses .print cs (.of .invalidPrint)
  | read {cs : List Char} (hne : cs ≠ []) (hcs : ¬ ∃ v, Literal.Denotes cs v) :
      Refuses .read cs (.of .invalidRead)

theorem isEmpty_iff_toList (s : String) : s.isEmpty = true ↔ s.toList = [] := by
  simp

theorem not_isEmpty_iff_toList (s : String) : ¬ s.isEmpty = true ↔ s.toList ≠ [] :=
  not_congr (isEmpty_iff_toList s)

theorem check_act (a : Action) (s : String) :
    (act a).check s = if s.isEmpty then .ok ()
      else .error (.because .unknownInstruction (a.spelling ++ " TAKES NO ARGUMENT")) := by
  unfold check
  cases s.isEmpty with
  | true => rfl
  | false => rfl

/-- A keyword that needs an argument, other than `PUSH`, needs a target. -/
theorem check_target {w : Keyword} (hw : w.argument = .required) (hpush : w ≠ push) (s : String) :
    w.check s = if s.isEmpty then
        .error (.because .unknownInstruction (w.spelling ++ " NEEDS A TARGET"))
      else .ok () := by
  unfold check
  rw [hw]
  cases s.isEmpty with
  | true => exact if_neg hpush
  | false => rfl

/-- What may be a literal is not checked before it is read. -/
theorem check_literal {w : Keyword} (hw : w = push ∨ w.argument = .optional) (s : String) :
    w.check s = .ok () := by
  unfold check
  rcases hw with rfl | hw
  · cases s.isEmpty with
    | true => rfl
    | false => rfl
  · rw [hw]

/-- A keyword that needs a target takes any text as one. -/
theorem statement_target_cases (w : Keyword) (build : Target → Statement)
    (hw : w.argument = .required) (hpush : w ≠ push)
    (hbuild : ∀ s, w.build s = .ok (build (.ofString s))) (s : String) :
    (s.toList = [] ∧ w.statement s =
      .error (.because .unknownInstruction (w.spelling ++ " NEEDS A TARGET"))) ∨
    (s.toList ≠ [] ∧ ∃ t, Target.Aims s.toList t ∧ w.statement s = .ok (build t)) := by
  rw [statement, check_target hw hpush, hbuild]
  by_cases hs : s.isEmpty = true
  · rw [if_pos hs]
    exact Or.inl ⟨(isEmpty_iff_toList s).mp hs, rfl⟩
  · rw [if_neg hs]
    exact Or.inr ⟨(not_isEmpty_iff_toList s).mp hs, .ofString s,
      (Target.ofString_eq_iff s _).mp rfl, rfl⟩

theorem perhaps_cases (s : String) (fault : Fault.Kind) (build : Option Value → Statement) :
    (s.toList = [] ∧ perhaps s fault build = .ok (build none)) ∨
    (∃ v, Literal.Denotes s.toList v ∧ perhaps s fault build = .ok (build (some v))) ∨
    (s.toList ≠ [] ∧ (¬ ∃ v, Literal.Denotes s.toList v) ∧
      perhaps s fault build = .error (.of fault)) := by
  unfold perhaps
  by_cases hs : s.isEmpty = true
  · exact Or.inl ⟨(isEmpty_iff_toList s).mp hs, if_pos hs⟩
  · rw [if_neg hs]
    cases hread : Literal.ofString? s with
    | some v => exact Or.inr (Or.inl ⟨v, (Literal.ofChars?_eq_some_iff _ v).mp hread, rfl⟩)
    | none =>
        exact Or.inr (Or.inr ⟨(not_isEmpty_iff_toList s).mp hs,
          (Literal.ofString?_eq_none_iff s).mp hread, rfl⟩)

/-- A keyword takes what stands behind it, or refuses it, as the grammar says. -/
theorem statement_spec (w : Keyword) (s : String) :
    (∃ st, w.statement s = .ok st ∧ w.Takes s.toList st) ∨
      ∃ f, w.statement s = .error f ∧ w.Refuses s.toList f := by
  cases w with
  | act a =>
      rw [statement, check_act]
      by_cases hs : s.isEmpty = true
      · rw [if_pos hs, (isEmpty_iff_toList s).mp hs]
        exact Or.inl ⟨_, rfl, .act a⟩
      · rw [if_neg hs]
        exact Or.inr ⟨_, rfl, .act a ((not_isEmpty_iff_toList s).mp hs)⟩
  | goto =>
      rcases statement_target_cases .goto .goto rfl (by simp) (fun _ => rfl) s with
        ⟨hnil, hread⟩ | ⟨hne, t, ht, hread⟩
      · rw [hread, hnil]
        exact Or.inr ⟨_, rfl, .goto⟩
      · exact Or.inl ⟨_, hread, .goto hne ht⟩
  | branch r =>
      rcases statement_target_cases (.branch r) (.branch r) rfl (by simp) (fun _ => rfl) s with
        ⟨hnil, hread⟩ | ⟨hne, t, ht, hread⟩
      · rw [hread, hnil]
        exact Or.inr ⟨_, rfl, .branch r⟩
      · exact Or.inl ⟨_, hread, .branch r hne ht⟩
  | push =>
      rw [statement, check_literal (.inl rfl)]
      simp only [build]
      cases hread : Literal.ofString? s with
      | some v => exact Or.inl ⟨_, rfl, .push ((Literal.ofChars?_eq_some_iff _ v).mp hread)⟩
      | none => exact Or.inr ⟨_, rfl, .push ((Literal.ofString?_eq_none_iff s).mp hread)⟩
  | print =>
      rw [statement, check_literal (.inr rfl)]
      simp only [build]
      rcases perhaps_cases s .invalidPrint .print with ⟨hnil, hread⟩ | ⟨v, hv, hread⟩ |
        ⟨hne, hnot, hread⟩
      · rw [hread, hnil]
        exact Or.inl ⟨_, rfl, .printNothing⟩
      · exact Or.inl ⟨_, hread, .print hv⟩
      · exact Or.inr ⟨_, hread, .print hne hnot⟩
  | read =>
      rw [statement, check_literal (.inr rfl)]
      simp only [build]
      rcases perhaps_cases s .invalidRead .read with ⟨hnil, hread⟩ | ⟨v, hv, hread⟩ |
        ⟨hne, hnot, hread⟩
      · rw [hread, hnil]
        exact Or.inl ⟨_, rfl, .readNothing⟩
      · exact Or.inl ⟨_, hread, .read hv⟩
      · exact Or.inr ⟨_, hread, .read hne hnot⟩

/-- The grammar is unambiguous: no keyword makes two statements with one argument. -/
theorem Takes.unique {w : Keyword} {cs : List Char} {st st' : Statement} (h : w.Takes cs st)
    (h' : w.Takes cs st') : st = st' := by
  cases h with
  | act a => cases h' with
    | act => rfl
  | goto hne hcs => cases h' with
    | goto hne' hcs' => rw [hcs.unique hcs']
  | branch r hne hcs => cases h' with
    | branch _ hne' hcs' => rw [hcs.unique hcs']
  | push hcs => cases h' with
    | push hcs' => rw [hcs.unique hcs']
  | printNothing => cases h' with
    | printNothing => rfl
    | print hcs' => exact absurd rfl hcs'.ne_nil
  | print hcs => cases h' with
    | printNothing => exact absurd rfl hcs.ne_nil
    | print hcs' => rw [hcs.unique hcs']
  | readNothing => cases h' with
    | readNothing => rfl
    | read hcs' => exact absurd rfl hcs'.ne_nil
  | read hcs => cases h' with
    | readNothing => exact absurd rfl hcs.ne_nil
    | read hcs' => rw [hcs.unique hcs']

theorem Takes.not_refuses {w : Keyword} {cs : List Char} {st : Statement} {f : Fault}
    (h : w.Takes cs st) (h' : w.Refuses cs f) : False := by
  cases h with
  | act a => cases h' with
    | act _ hne => exact hne rfl
  | goto hne hcs => cases h' with
    | goto => exact hne rfl
  | branch r hne hcs => cases h' with
    | branch => exact hne rfl
  | push hcs => cases h' with
    | push hnot => exact hnot ⟨_, hcs⟩
  | printNothing => cases h' with
    | print hne hnot => exact hne rfl
  | print hcs => cases h' with
    | print hne hnot => exact hnot ⟨_, hcs⟩
  | readNothing => cases h' with
    | read hne hnot => exact hne rfl
  | read hcs => cases h' with
    | read hne hnot => exact hnot ⟨_, hcs⟩

theorem Refuses.unique {w : Keyword} {cs : List Char} {f f' : Fault} (h : w.Refuses cs f)
    (h' : w.Refuses cs f') : f = f' := by
  cases h <;> cases h' <;> rfl

end Keyword
end Fifo
