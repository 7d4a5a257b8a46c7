import Fifo.Text.Decimal

/-!
# Faults

Everything that can go wrong is a `Fault`: a kind, the place it happened if that is known, and a
message. Faults raised far from the dispatcher have no place yet; `Fault.inLine` adds one on the
way out, and the first place given is the one that stays.
-/

namespace Fifo

inductive Fault.Kind where
  | singleDelimiter
  | invalidJumpTarget
  | unresolvedJumpTarget
  | nonIntegerReturnValue
  | notEnoughArguments
  | unspecifiedComparison
  | returnFromEmptyQueue
  | operationMismatch
  | invalidPrint
  | invalidRead
  | invalidPush
  | unknownInstruction
  | divisionByZero
  | interrupted
  | invalidFileExtension
  | fileNotFound
  | internalError
  deriving DecidableEq, Repr

namespace Fault.Kind

/-- The words that open the text of a fault. -/
def title : Fault.Kind → String
  | .singleDelimiter => "SINGLE DELIMITER"
  | .invalidJumpTarget => "INVALID JUMP TARGET"
  | .unresolvedJumpTarget => "UNRESOLVED JUMP TARGET"
  | .nonIntegerReturnValue => "NON-INTEGER RETURN VALUE"
  | .notEnoughArguments => "NOT ENOUGH ARGUMENTS"
  | .unspecifiedComparison => "UNSPECIFIED COMPARISON OPERATION"
  | .returnFromEmptyQueue => "RETURN FROM EMPTY QUEUE"
  | .operationMismatch => "OPERATION MISMATCH"
  | .invalidPrint => "INVALID PRINT"
  | .invalidRead => "INVALID READ"
  | .invalidPush => "INVALID PUSH"
  | .unknownInstruction => "UNKNOWN INSTRUCTION"
  | .divisionByZero => "DIVISION BY ZERO"
  | .interrupted => "BREAK"
  | .invalidFileExtension => "INVALID FILE EXTENSION"
  | .fileNotFound => "FILE NOT FOUND"
  | .internalError => "INTERNAL ERROR"

/-- The number of a kind: faults of a program from 1, of its user from 20, of its host from 50. -/
def code : Fault.Kind → Nat
  | .singleDelimiter => 1
  | .invalidJumpTarget => 2
  | .unresolvedJumpTarget => 3
  | .nonIntegerReturnValue => 4
  | .notEnoughArguments => 5
  | .unspecifiedComparison => 6
  | .returnFromEmptyQueue => 7
  | .operationMismatch => 8
  | .invalidPrint => 9
  | .invalidRead => 10
  | .invalidPush => 11
  | .unknownInstruction => 12
  | .divisionByZero => 13
  | .interrupted => 20
  | .invalidFileExtension => 50
  | .fileNotFound => 51
  | .internalError => 52

end Fault.Kind

/-- A fault: its kind, its place as far as known, and a message, empty where there is none. -/
structure Fault where
  kind : Fault.Kind
  line : Option Nat
  column : Option Nat
  message : String
  deriving DecidableEq, Repr

namespace Fault

def of (kind : Kind) : Fault :=
  ⟨kind, none, none, ""⟩

/-- A fault of a kind that carries a message. -/
def because (kind : Kind) (message : String) : Fault :=
  ⟨kind, none, none, message⟩

/-- Places a fault in a line, unless it already has one. -/
def inLine (n : Nat) (f : Fault) : Fault :=
  { f with line := f.line.or (some n) }

/-- Places a fault at a column, counted in bytes from the start of its line. -/
def atColumn (n : Nat) (f : Fault) : Fault :=
  { f with column := some n }

def withMessage (message : String) (f : Fault) : Fault :=
  { f with message := message }

/-- The part of the text that follows the title. -/
def details (f : Fault) : String :=
  let place := match f.line with
    | some n => " IN LINE " ++ Decimal.ofNat n
    | none => ""
  let offset := match f.column with
    | some n => " AT COLUMN " ++ Decimal.ofNat n
    | none => ""
  let reason := if f.message.isEmpty then "" else "; " ++ f.message
  place ++ offset ++ reason

/-- The text shown to the user. -/
def text (f : Fault) : String :=
  f.kind.title ++ f.details

/-- The text shown to a developer. -/
def debugText (f : Fault) : String :=
  "Error \x7b " ++ f.text ++ " \x7d"

@[simp] theorem inLine_inLine (m n : Nat) (f : Fault) :
    (f.inLine m).inLine n = f.inLine m := by
  simp [inLine]

end Fault
end Fifo
