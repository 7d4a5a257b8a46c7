import Fifo.Command.Session

/-!
# The command

Performs what a session asks for: reads the program file, prints, and reads the user's lines. All
decisions are taken by `Fifo.Command` and `Fifo.Machine`. Of the clock only the first reading is
taken from the system; the later ones follow it tick by tick.
-/

namespace Fifo

/-- The reason why the system could not read a file. -/
def ReadFailure.ofError : IO.Error → ReadFailure
  | .noFileOrDirectory _ _ _ => .notFound
  | .inappropriateType _ code _ => if code = 21 then .isDirectory else .notDirectory
  | .invalidArgument _ code text =>
      if code = 22 then .nulByte else if text = "name too long" then .nameTooLong else .other text
  | .permissionDenied _ _ _ => .other "Permission denied (os error 13)"
  | e => .other e.toString

namespace Command

def readContent (path : String) : IO (Except ReadFailure Bytes) := do
  try
    let content ← IO.FS.readBinFile path
    return .ok content.data.toList
  catch e => return .error (ReadFailure.ofError e)

/-- Reads the rest of a row of input, of which the bytes read so far are given last first. -/
partial def readRow (input : IO.FS.Stream) (before : Bytes) : IO Bytes := do
  match (← input.read 1).data.toList with
  | [] => return before.reverse
  | b :: _ =>
      if b = Source.lineFeed then return (b :: before).reverse
      else readRow input (b :: before)

/-- Reads a row of input; there is none at its end. -/
def nextRow (input : IO.FS.Stream) : IO (Option Bytes) := do
  match ← readRow input [] with
  | [] => return none
  | row => return some row

def printNow (output : IO.FS.Stream) (text : String) : IO Unit := do
  output.putStr text
  output.flush

/-- Reports a fault and gives the exit status of a failure. -/
def failWith (f : Fault) : IO UInt32 := do
  (← IO.getStderr).putStr (reportText f)
  return failureStatus.toUInt32

/-- Runs slice after slice until the program ends. -/
partial def serve (cycles : Nat) (input output : IO.FS.Stream) (m : Machine) : IO UInt32 := do
  match m.execute cycles with
  | (m', .running) => serve cycles input output m'
  | (m', .print text) =>
      printNow output text
      serve cycles input output m'
  | (m', .input prompt) =>
      printNow output prompt
      match answer (← nextRow input) m' with
      | .ok m'' => serve cycles input output m''
      | .error f => failWith f
  | (_, .exit value) => return (exitStatus value).toUInt32
  | (_, .fault f) => failWith f
  | (_, .stopped) => return 0

def serveFile (options : Options) : IO UInt32 := do
  let content ← if Path.isProgram options.file then readContent options.file
    else pure (.error .notFound)
  let clock ← IO.monoNanosNow
  match (Source.load (fun _ => content) options.file).bind
      (prepare (.ticking (UInt64.ofNat clock)) options) with
  | .ok (m, opening) =>
      let output ← IO.getStdout
      printNow output opening
      serve options.cycles (← IO.getStdin) output m
  | .error f => failWith f

end Command
end Fifo

/-- Runs a program from the command line. -/
def main (args : List String) : IO UInt32 := do
  match Fifo.Command.Request.ofArguments args with
  | .run options => Fifo.Command.serveFile options
  | .version =>
      IO.print Fifo.Command.versionText
      return 0
  | .help =>
      IO.print Fifo.Command.helpText
      return 0
  | .misuse =>
      IO.eprint Fifo.Command.usageText
      return Fifo.Command.failureStatus.toUInt32
