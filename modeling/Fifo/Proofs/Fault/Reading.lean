import Fifo.Fault
import Fifo.Proofs.Statement.Layout
import Fifo.Proofs.Text.Numerals

/-!
# Reading faults back

A fault grows on its way out: lines, columns and messages are attached to it, in any order.  The
first line stays and the last message replaces those before it (`attachAll_eq`, from `attach_eq`
for one attachment).

The text of a fault quotes nothing, and a message may look like any other part of it.  It can be
read back all the same (`ofText?_text`): no title begins another one, a part behind the title opens
with characters that no later part opens with, no number goes on into the part behind it, and
nothing stands behind the message.
-/

namespace Fifo
namespace Fault

/-! ### What is attached to a fault -/

/-- What can be attached to a fault on its way out. -/
inductive Attachment where
  | line (n : Nat)
  | column (n : Nat)
  | message (m : String)
  deriving DecidableEq, Repr

namespace Attachment

def line? : Attachment → Option Nat
  | line n => some n
  | column _ | message _ => none

def column? : Attachment → Option Nat
  | column n => some n
  | line _ | message _ => none

def message? : Attachment → Option String
  | message m => some m
  | line _ | column _ => none

end Attachment

def attach (f : Fault) : Attachment → Fault
  | .line n => f.inLine n
  | .column n => f.atColumn n
  | .message m => f.withMessage m

/-- Attaches one thing after another. -/
def attachAll (f : Fault) (attachments : List Attachment) : Fault :=
  attachments.foldl attach f

/-- A line is kept if there is one, a column and a message are replaced. -/
theorem attach_eq (f : Fault) (a : Attachment) :
    f.attach a =
      { kind := f.kind
        line := f.line.or a.line?
        column := a.column?.or f.column
        message := a.message?.getD f.message } := by
  cases a with
  | line n => rfl
  | column n => simp [attach, atColumn, Attachment.line?, Attachment.column?, Attachment.message?]
  | message m =>
      simp [attach, withMessage, Attachment.line?, Attachment.column?, Attachment.message?]

/-- Of all lines the first stays, of all columns and messages the last. -/
theorem attachAll_eq (f : Fault) (attachments : List Attachment) :
    f.attachAll attachments =
      { kind := f.kind
        line := f.line.or (attachments.filterMap Attachment.line?).head?
        column := (attachments.filterMap Attachment.column?).getLast?.or f.column
        message := (attachments.filterMap Attachment.message?).getLast?.getD f.message } := by
  induction attachments generalizing f with
  | nil => simp [attachAll]
  | cons a attachments ih =>
      have hcons {β : Type} (g : Attachment → Option β) :
          (a :: attachments).filterMap g = (g a).toList ++ attachments.filterMap g := by
        rw [List.filterMap_eq_flatMap_toList, List.filterMap_eq_flatMap_toList, List.flatMap_cons]
      have hlast {β : Type} (o : Option β) : o.toList.getLast? = o := by
        cases o <;> rfl
      have hstep : f.attachAll (a :: attachments) = (f.attach a).attachAll attachments := rfl
      rw [hstep, ih, attach_eq, hcons, hcons, hcons, List.head?_append, List.getLast?_append,
        List.getLast?_append, Option.head?_toList, hlast, hlast, Option.or_assoc, Option.or_assoc,
        Option.getD_or]

/-- Where one column is attached at most, none is there when it comes. -/
theorem column_eq_none_of_split {before after : List Attachment} {n : Nat} (kind : Kind)
    (h : ((before ++ .column n :: after).filterMap Attachment.column?).length ≤ 1) :
    ((of kind).attachAll before).column = none := by
  have hbefore : before.filterMap Attachment.column? = [] := by
    have hcolumn : (Attachment.column n :: after).filterMap Attachment.column? =
        n :: after.filterMap Attachment.column? := rfl
    rw [List.filterMap_append, hcolumn, List.length_append, List.length_cons] at h
    exact List.length_eq_zero_iff.mp (by omega)
  rw [attachAll_eq, hbefore]
  rfl

theorem getLast?_eq_head?_of_length_le {α : Type} {l : List α} (h : l.length ≤ 1) :
    l.getLast? = l.head? := by
  match l, h with
  | [], _ => rfl
  | [_], _ => rfl

/-! ### The parts of a text -/

/-- Words with a number behind them, where there is a number. -/
def numbered (words : String) : Option Nat → List Char
  | some n => words.toList ++ Decimal.digits n
  | none => []

/-- A message behind its separator, where there is one. -/
def explained (message : String) : List Char :=
  if message.isEmpty then [] else "; ".toList ++ message.toList

theorem toList_details (f : Fault) :
    f.details.toList =
      numbered " IN LINE " f.line ++ (numbered " AT COLUMN " f.column ++ explained f.message) := by
  obtain ⟨kind, line, column, message⟩ := f
  cases line <;> cases column <;> cases hempty : message.isEmpty <;>
    simp [details, numbered, explained, Decimal.ofNat, hempty]

theorem toList_text (f : Fault) :
    f.text.toList = f.kind.title.toList ++ (numbered " IN LINE " f.line ++
      (numbered " AT COLUMN " f.column ++ explained f.message)) := by
  rw [text, String.toList_append, toList_details]

/-- Only a missing message has no text, and the separator shows where one begins. -/
theorem explained_cases (message : String) :
    (message = "" ∧ explained message = []) ∨
      explained message = ';' :: ' ' :: message.toList := by
  unfold explained
  split
  · next hempty => exact Or.inl ⟨String.isEmpty_iff.mp hempty, rfl⟩
  · exact Or.inr (by simp)

/-! ### Reading the parts -/

namespace Kind

def all : List Kind :=
  [.singleDelimiter, .invalidJumpTarget, .unresolvedJumpTarget, .nonIntegerReturnValue,
    .notEnoughArguments, .unspecifiedComparison, .returnFromEmptyQueue, .operationMismatch,
    .invalidPrint, .invalidRead, .invalidPush, .unknownInstruction, .divisionByZero, .interrupted,
    .invalidFileExtension, .fileNotFound, .internalError]

theorem mem_all (k : Kind) : k ∈ all := by
  cases k <;> decide

/-- No title begins another one. -/
theorem eq_of_title_begins {j k : Kind} (h : j.title.toList <+: k.title.toList) : j = k := by
  have hall : ∀ j ∈ all, ∀ k ∈ all, j.title.toList <+: k.title.toList → j = k := by
    decide +kernel
  exact hall j (mem_all j) k (mem_all k) h

/-- Titles with anything behind them differ in the titles or in what stands behind them. -/
theorem title_append_inj {j k : Kind} {cs ds : List Char}
    (h : j.title.toList ++ cs = k.title.toList ++ ds) : j = k ∧ cs = ds := by
  have hj : j.title.toList <+: k.title.toList ++ ds := ⟨cs, h⟩
  have hk : k.title.toList <+: k.title.toList ++ ds := List.prefix_append _ _
  have hsame : j = k := by
    rcases List.prefix_or_prefix_of_prefix hj hk with hjk | hkj
    · exact eq_of_title_begins hjk
    · exact (eq_of_title_begins hkj).symm
  subst hsame
  exact ⟨rfl, List.append_cancel_left h⟩

/-- The kind with whose title a text begins, and what follows the title. -/
def read? (cs : List Char) : Option (Kind × List Char) :=
  all.findSome? fun k => (k.title.toList.isPrefixOf? cs).map fun rest => (k, rest)

theorem read?_title (k : Kind) (rest : List Char) :
    read? (k.title.toList ++ rest) = some (k, rest) := by
  have hfound : (read? (k.title.toList ++ rest)).isSome = true := by
    rw [read?, List.findSome?_isSome_iff]
    refine ⟨k, mem_all k, ?_⟩
    rw [List.isPrefixOf?_eq_some_iff_append_eq.mpr rfl]
    rfl
  -- Whichever kind is found, its title begins the same text, so there is no other than this one.
  obtain ⟨found, hread⟩ := Option.isSome_iff_exists.mp hfound
  obtain ⟨j, -, hj⟩ := List.exists_of_findSome?_eq_some hread
  obtain ⟨after, hafter, rfl⟩ := Option.map_eq_some_iff.mp hj
  obtain ⟨rfl, rfl⟩ := title_append_inj (List.isPrefixOf?_eq_some_iff_append_eq.mp hafter)
  exact hread

end Kind

/-- Reads words with a number behind them, if they come next, and gives what follows. -/
def readNumbered (words : String) (cs : List Char) : Option Nat × List Char :=
  match words.toList.isPrefixOf? cs with
  | some rest => (Decimal.nat? (rest.takeWhile Char.isDigit), rest.dropWhile Char.isDigit)
  | none => (none, cs)

/-- Reads a message, if its separator comes next. -/
def readMessage (cs : List Char) : String :=
  match "; ".toList.isPrefixOf? cs with
  | some rest => String.ofList rest
  | none => ""

/-- A number is read, or seen to be missing, if what follows neither goes on with a digit nor opens
with the same words. -/
theorem readNumbered_numbered {words : String} {rest : List Char}
    (hdigit : ∀ c, rest.head? = some c → c.isDigit = false) (hwords : ¬ words.toList <+: rest)
    (number : Option Nat) :
    readNumbered words (numbered words number ++ rest) = (number, rest) := by
  cases number with
  | none =>
      have hmissing : words.toList.isPrefixOf? rest = none := by
        rw [Option.eq_none_iff_forall_ne_some]
        intro after hafter
        exact hwords ⟨after, List.isPrefixOf?_eq_some_iff_append_eq.mp hafter⟩
      rw [numbered, List.nil_append, readNumbered, hmissing]
  | some n =>
      have hfound : words.toList.isPrefixOf? (numbered words (some n) ++ rest) =
          some (Decimal.digits n ++ rest) := by
        rw [List.isPrefixOf?_eq_some_iff_append_eq, numbered, List.append_assoc]
      obtain ⟨htake, hdrop⟩ := Text.span_append (Decimal.isDigits_digits n).2 hdigit
      rw [readNumbered, hfound]
      simp only [htake, hdrop, Decimal.nat?_digits]

/-- The separator of a message is neither a digit nor the space that opens words. -/
theorem readNumbered_explained {words : String} (hspace : words.toList.head? = some ' ')
    (number : Option Nat) (message : String) :
    readNumbered words (numbered words number ++ explained message) =
      (number, explained message) := by
  obtain ⟨cs, hcs⟩ := List.head?_eq_some_iff.mp hspace
  rcases explained_cases message with ⟨-, hnone⟩ | hsome
  · rw [hnone]
    exact readNumbered_numbered (by simp) (by simp [hcs]) number
  · rw [hsome]
    exact readNumbered_numbered (by simp) (by simp [hcs]) number

theorem readNumbered_line (line column : Option Nat) (message : String) :
    readNumbered " IN LINE "
        (numbered " IN LINE " line ++ (numbered " AT COLUMN " column ++ explained message)) =
      (line, numbered " AT COLUMN " column ++ explained message) := by
  cases column with
  | none => exact readNumbered_explained (by simp) line message
  -- Both parts open with a space; their second characters tell them apart.
  | some n => exact readNumbered_numbered (by simp [numbered]) (by simp [numbered]) line

theorem readMessage_explained (message : String) : readMessage (explained message) = message := by
  rcases explained_cases message with ⟨rfl, hnone⟩ | hsome
  · rw [hnone]
    rfl
  · rw [hsome]
    exact String.ofList_toList

/-- Reads the text of a fault. -/
def ofText? (text : String) : Option Fault :=
  (Kind.read? text.toList).map fun (kind, rest) =>
    let (line, rest) := readNumbered " IN LINE " rest
    let (column, rest) := readNumbered " AT COLUMN " rest
    ⟨kind, line, column, readMessage rest⟩

/-- The text of a fault is read as that fault. -/
theorem ofText?_text (f : Fault) : ofText? f.text = some f := by
  rw [ofText?, toList_text, Kind.read?_title, Option.map_some]
  simp only [readNumbered_line]
  rw [readNumbered_explained (by simp), readMessage_explained]

theorem eq_of_text_eq {f g : Fault} (h : f.text = g.text) : f = g := by
  have hread := congrArg ofText? h
  rw [ofText?_text, ofText?_text] at hread
  exact Option.some.inj hread

/-- **The text of a fault determines the fault.**  Whatever is attached to a fault of some kind, in
whatever order and with one column at most, it is of that kind, it is placed in the first line
attached and at the column attached, if there is one, and it carries the last message attached; the
column finds no other one there.  Two faults with the same text have the same kind, line, column and
message, whatever their messages look like. -/
theorem text_determines_fault :
    (∀ (kind : Kind) (attachments : List Attachment),
      (attachments.filterMap Attachment.column?).length ≤ 1 →
      ((of kind).attachAll attachments).kind = kind ∧
      ((of kind).attachAll attachments).line =
        (attachments.filterMap Attachment.line?).head? ∧
      ((of kind).attachAll attachments).column =
        (attachments.filterMap Attachment.column?).head? ∧
      ((of kind).attachAll attachments).message =
        (attachments.filterMap Attachment.message?).getLast?.getD "" ∧
      ∀ (before after : List Attachment) (n : Nat), attachments = before ++ .column n :: after →
        ((of kind).attachAll before).column = none) ∧
    ∀ f g : Fault, f.text = g.text →
      f.kind = g.kind ∧ f.line = g.line ∧ f.column = g.column ∧ f.message = g.message := by
  refine ⟨fun kind attachments hcolumns => ?_, fun f g htext => ?_⟩
  · rw [attachAll_eq, getLast?_eq_head?_of_length_le hcolumns]
    refine ⟨rfl, rfl, Option.or_none, rfl, ?_⟩
    rintro before after n rfl
    exact column_eq_none_of_split kind hcolumns
  · obtain rfl := eq_of_text_eq htext
    exact ⟨rfl, rfl, rfl, rfl⟩

/-- Two lines, a column, and messages that look like places. -/
def disguised : List Attachment :=
  [.message "IN LINE 4", .line 3, .column 5, .line 4, .message " AT COLUMN 2; 6"]

theorem text_determines_fault_disguised :
    (disguised.filterMap Attachment.column?).length ≤ 1 ∧
      ((of .fileNotFound).attachAll disguised).line = some 3 ∧
      ((of .fileNotFound).attachAll disguised).column = some 5 ∧
      ((of .fileNotFound).attachAll disguised).message = " AT COLUMN 2; 6" ∧
      ((of .fileNotFound).attachAll disguised).text =
        "FILE NOT FOUND IN LINE 3 AT COLUMN 5;  AT COLUMN 2; 6" ∧
      (((because .fileNotFound " AT COLUMN 2; 6").atColumn 5).inLine 3).text =
        "FILE NOT FOUND IN LINE 3 AT COLUMN 5;  AT COLUMN 2; 6" ∧
      (((because .fileNotFound " AT COLUMN 2; 6").atColumn 5).inLine 3).message =
        ((of .fileNotFound).attachAll disguised).message := by
  have hcolumns : (disguised.filterMap Attachment.column?).length ≤ 1 := by decide
  obtain ⟨-, hline, hcolumn, hmessage, -⟩ :=
    text_determines_fault.1 .fileNotFound disguised hcolumns
  have htext : ((of .fileNotFound).attachAll disguised).text =
      "FILE NOT FOUND IN LINE 3 AT COLUMN 5;  AT COLUMN 2; 6" := by
    decide +kernel
  have hother : (((because .fileNotFound " AT COLUMN 2; 6").atColumn 5).inLine 3).text =
      "FILE NOT FOUND IN LINE 3 AT COLUMN 5;  AT COLUMN 2; 6" := by
    decide +kernel
  obtain ⟨-, -, -, hsame⟩ := text_determines_fault.2 _ _ (hother.trans htext.symm)
  exact ⟨hcolumns, hline, hcolumn, hmessage, htext, hother, hsame⟩

end Fault
end Fifo
