import Fifo.Fault
import Fifo.Files.Path
import Fifo.Source

/-!
# File trees

The files below a working directory, and what reading one of them by its path gives. A path is
followed piece by piece: every piece must be looked up in a directory, so that a slash or a dot
behind a file is an error. Nothing is known of what lies outside the working directory.
-/

namespace Fifo

inductive ReadFailure where
  | notFound
  | notDirectory
  | isDirectory
  | nameTooLong
  | nulByte
  /-- Anything else, in the words of the system. -/
  | other (text : String)
  deriving DecidableEq

namespace ReadFailure

/-- The fault of a program file that cannot be read. -/
def fault (path : String) : ReadFailure → Fault
  | notFound => .because .fileNotFound path
  | notDirectory => .because .internalError "Not a directory (os error 20)"
  | isDirectory => .because .internalError "Is a directory (os error 21)"
  | nameTooLong => .because .internalError "File name too long (os error 36)"
  | nulByte => .because .internalError "file name contained an unexpected NUL byte"
  | other text => .because .internalError text

end ReadFailure

/-- Directories and files by the names that lead to them from the working directory; of two files
with the same names the first counts. -/
structure FileTree where
  directories : List (List String)
  files : List (List String × Bytes)

namespace FileTree

/-- The tree that holds nothing but the working directory. -/
def empty : FileTree :=
  ⟨[], []⟩

/-- Makes a directory, with those that lead to it. -/
def makeDirectory (t : FileTree) (path : String) : FileTree :=
  { t with directories := Path.names path :: t.directories }

/-- Writes a file, in place of one that was there. -/
def writeFile (t : FileTree) (path : String) (content : Bytes) : FileTree :=
  { t with files := (Path.names path, content) :: t.files }

/-- What names can lead to. -/
inductive Entry where
  | directory
  | file (content : Bytes)

/-- What names lead to. -/
def entry? (t : FileTree) (names : List String) : Option Entry :=
  match t.files.lookup names with
  | some content => some (.file content)
  | none =>
      if names.isEmpty || t.directories.any names.isPrefixOf
          || t.files.any (names.isPrefixOf ·.1) then some .directory
      else none

/-- A place on the way along a path. -/
inductive Place where
  | inside (names : List String)
  | outside

def nameLimit : Nat := 255

/-- The length from which on a path is too long, in bytes. -/
def pathLimit : Nat := 4096

/-- Looks up one piece of a path in a directory of the tree. -/
def lookup (t : FileTree) (names : List String) (piece : String) : Except ReadFailure Place :=
  if Path.isIdle piece then .ok (.inside names)
  else if piece = ".." then .ok (if names.isEmpty then .outside else .inside names.dropLast)
  else if nameLimit < piece.utf8ByteSize then .error .nameTooLong
  else match t.entry? (names ++ [piece]) with
    | some _ => .ok (.inside (names ++ [piece]))
    | none => .error .notFound

/-- Looks up one piece of a path outside of the tree. -/
def lookupOutside (piece : String) : Except ReadFailure Place :=
  if Path.isIdle piece || piece == ".." then .ok .outside
  else if nameLimit < piece.utf8ByteSize then .error .nameTooLong
  else .error .notFound

/-- Follows one piece of a path. -/
def follow (t : FileTree) (piece : String) : Place → Except ReadFailure Place
  | .outside => lookupOutside piece
  | .inside names =>
      match t.entry? names with
      | some .directory => t.lookup names piece
      | some (.file _) => .error .notDirectory
      | none => .error .notFound

def walk (t : FileTree) : List String → Place → Except ReadFailure Place
  | [], place => .ok place
  | piece :: rest, place => (t.follow piece place).bind (t.walk rest)

/-- Reads what is at a place. -/
def contentAt (t : FileTree) : Place → Except ReadFailure Bytes
  | .outside => .error .isDirectory
  | .inside names =>
      match t.entry? names with
      | some (.file content) => .ok content
      | some .directory => .error .isDirectory
      | none => .error .notFound

def read (t : FileTree) (path : String) : Except ReadFailure Bytes :=
  if path.toList.any (·.toNat == 0) then .error .nulByte
  else if path.isEmpty then .error .notFound
  else if pathLimit ≤ path.utf8ByteSize then .error .nameTooLong
  else
    let origin := if Path.isAbsolute path then Place.outside else .inside []
    (t.walk (Path.pieces path) origin).bind t.contentAt

end FileTree

namespace Source

/-- The lines of the program file at a path. `read` is asked for its content only if the path names
a program file. -/
def load (read : String → Except ReadFailure Bytes) (path : String) :
    Except Fault (List String) :=
  if Path.isProgram path then
    match read path with
    | .ok content => lines content
    | .error failure => .error (failure.fault path)
  else .error (.because .invalidFileExtension path)

end Source
end Fifo
