import Fifo.Text.Decimal

/-!
# Command-line arguments

Arguments are read from left to right. The first mistake decides, unless the version or the help
text was asked for before it; a missing file name is noticed only at the end.
-/

namespace Fifo
namespace Command

/-- How to run a program. -/
structure Options where
  file : String
  /-- The seed of the generator, if it is not to be the clock. -/
  seed : Option UInt64
  list : Bool
  /-- The number of steps in a slice. -/
  cycles : Nat
  deriving DecidableEq

inductive Request where
  | run (options : Options)
  | version
  | help
  | misuse
  deriving DecidableEq

/-- An argument by its form. -/
inductive Argument where
  /-- A lone pair of dashes, behind which there are no options. -/
  | stop
  /-- A name behind two dashes, with a value if an equals sign follows it. -/
  | long (name : String) (value : Option String)
  /-- Letters behind one dash. -/
  | short (letters : List Char)
  | word (text : String)

namespace Argument

/-- Tells a name from the value behind its equals sign. -/
def ofLong (cs : List Char) : Argument :=
  let name := String.ofList (cs.takeWhile (· != '='))
  match cs.dropWhile (· != '=') with
  | [] => long name none
  | _ :: value => long name (some (String.ofList value))

/-- The form of an argument. A single dash is a word. -/
def ofString (s : String) : Argument :=
  match s.toList with
  | '-' :: '-' :: cs => if cs.isEmpty then stop else ofLong cs
  | '-' :: c :: cs => short (c :: cs)
  | _ => word s

end Argument

/-- What is known of the options so far. -/
structure Draft where
  file : Option String
  seed : Option UInt64
  list : Bool
  cycles : Option UInt64

namespace Draft

def empty : Draft :=
  ⟨none, none, false, none⟩

/-- The number of steps in a slice where none is asked for. -/
def defaultCycles : Nat := 5000

/-- Notes the file name, which must not be empty and is given only once. -/
def setFile (d : Draft) (path : String) : Option Draft :=
  if d.file.isSome || path.isEmpty then none else some { d with file := some path }

/-- Notes that a listing is wanted, which is said only once. -/
def setList (d : Draft) : Option Draft :=
  if d.list then none else some { d with list := true }

/-- Notes the value of an option that takes one and is given only once. -/
def setValue (d : Draft) (name value : String) : Option Draft :=
  match Decimal.uint64? value.toList with
  | none => none
  | some n =>
      if name = "seed" && d.seed.isNone then some { d with seed := some n }
      else if name = "cycles" && d.cycles.isNone then some { d with cycles := some n }
      else none

def takesValue (name : String) : Bool :=
  name == "seed" || name == "cycles"

/-- The request at the end of the arguments. -/
def finish (d : Draft) : Request :=
  match d.file with
  | some path =>
      .run ⟨path, d.seed, d.list, (d.cycles.map UInt64.toNat).getD defaultCycles⟩
  | none => .misuse

/-- Reads arguments that cannot be options. -/
def readWords (d : Draft) : List String → Request
  | [] => d.finish
  | w :: ws => match d.setFile w with
    | some d' => d'.readWords ws
    | none => .misuse

/-- Reads arguments. -/
def read (d : Draft) : List String → Request
  | [] => d.finish
  | arg :: rest =>
      match Argument.ofString arg with
      | .stop => d.readWords rest
      | .word w => match d.setFile w with
        | some d' => d'.read rest
        | none => .misuse
      | .short ('V' :: _) => .version
      | .short ('h' :: _) => .help
      | .short _ => .misuse
      | .long name (some value) => match d.setValue name value with
        | some d' => d'.read rest
        | none => .misuse
      | .long name none =>
          if takesValue name then
            match rest with
            | value :: rest' => match d.setValue name value with
              | some d' => d'.read rest'
              | none => .misuse
            | [] => .misuse
          else if name = "list" then
            match d.setList with
            | some d' => d'.read rest
            | none => .misuse
          else if name = "version" then .version
          else if name = "help" then .help
          else .misuse

end Draft

/-- What the arguments of the command line ask for. -/
def Request.ofArguments (args : List String) : Request :=
  Draft.empty.read args

end Command
end Fifo
