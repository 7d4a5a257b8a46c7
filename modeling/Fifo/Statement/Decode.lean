import Fifo.Line
import Fifo.Statement.Keyword
import Fifo.Statement.Literal
import Fifo.Statement.Phrase

/-!
# Decoding

From a line of text to the statement it stands for. Blank lines and label lines stand for none.
-/

namespace Fifo
namespace Keyword

/-- Does the argument behind a keyword obey its rule? A `PUSH` of nothing is left to the reading of
literals, which has a fault of its own for it. -/
def check (w : Keyword) (argument : String) : Except Fault Unit :=
  match w.argument, argument.isEmpty with
  | .none, false => .error (.because .unknownInstruction (w.spelling ++ " TAKES NO ARGUMENT"))
  | .required, true =>
      if w = push then .ok ()
      else .error (.because .unknownInstruction (w.spelling ++ " NEEDS A TARGET"))
  | _, _ => .ok ()

/-- Reads the argument as a literal if there is one. -/
def perhaps (argument : String) (fault : Fault.Kind) (build : Option Value → Statement) :
    Except Fault Statement :=
  if argument.isEmpty then .ok (build none)
  else match Literal.ofString? argument with
    | some v => .ok (build (some v))
    | none => .error (.of fault)

/-- The statement that a keyword makes with an argument that obeys its rule. -/
def build (w : Keyword) (argument : String) : Except Fault Statement :=
  match w with
  | act a => .ok (.act a)
  | goto => .ok (.goto (.ofString argument))
  | branch relation => .ok (.branch relation (.ofString argument))
  | push => match Literal.ofString? argument with
    | some v => .ok (.push v)
    | none => .error (.of .invalidPush)
  | print => perhaps argument .invalidPrint .print
  | read => perhaps argument .invalidRead .read

/-- The statement that a keyword makes with the argument behind it. -/
def statement (w : Keyword) (argument : String) : Except Fault Statement :=
  match w.check argument with
  | .ok () => w.build argument
  | .error f => .error f

end Keyword

namespace Phrase

/-- The statement that a phrase stands for. -/
def statement (p : Phrase) : Except Fault Statement :=
  match Keyword.ofString? p.keyword with
  | some w => w.statement p.argument
  | none => .error (.because .unknownInstruction p.keyword)

end Phrase

namespace Line

/-- The fault of reading a statement where there is no text. It is placed like any other, but no
line raises it: a blank line is skipped before it is read. -/
def blankFault : Fault :=
  .because .internalError "BLANK LINE"

/-- Does nothing happen when the line is reached? -/
def isSkipped (l : Line) : Bool :=
  l.isBlank || l.isLabel

/-- The statement that stands in the line, as line `number` of its program, if it holds one. -/
def decode (number : Nat) (l : Line) : Except Fault (Option Statement) :=
  if l.isSkipped then .ok none
  else match Phrase.ofString? l.text with
    | none => .error (blankFault.inLine number)
    | some p => match p.statement with
      | .ok s => .ok (some s)
      | .error f => .error (f.inLine number)

end Line
end Fifo
