import Fifo.Text.Bytes

/-!
# Paths

A path is a text in which slashes divide names. Empty pieces and single dots name nothing.
-/

namespace Fifo
namespace Path

/-- Cuts characters at every slash. -/
def split : List Char → List (List Char)
  | [] => [[]]
  | c :: cs =>
      if c = '/' then [] :: split cs
      else match split cs with
        | [] => [[c]]
        | piece :: rest => (c :: piece) :: rest

def pieces (path : String) : List String :=
  (split path.toList).map String.ofList

/-- Does the piece stay where it is? -/
def isIdle (piece : String) : Bool :=
  piece == "" || piece == "."

def names (path : String) : List String :=
  (pieces path).filter (!isIdle ·)

/-- Does the path begin at the root of all files? -/
def isAbsolute (path : String) : Bool :=
  path.toList.head? == some '/'

/-- The ending of a program file's name, with its dot. -/
def programEnding : List Char := ['.', 'q', 'u']

/-- Does the path name a program file? Its last name must have the ending and more before it. -/
def isProgram (path : String) : Bool :=
  match (names path).getLast? with
  | some name =>
      programEnding.isSuffixOf name.toList && programEnding.length < name.toList.length
  | none => false

end Path
end Fifo
