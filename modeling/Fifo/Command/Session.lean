import Fifo.Command.Options
import Fifo.Files.Tree
import Fifo.Machine
import Fifo.Program.Listing

/-!
# Sessions

A host runs a program from the command line: it loads the file, then runs slice after slice, prints
what the machine wants printed, and answers its questions with the rows of its input. All that a
user can see of it is a transcript.
-/

namespace Fifo
namespace Command

/-- What a run of the command leaves behind. -/
structure Transcript where
  output : String
  /-- The report of a fault. -/
  report : Option String
  status : UInt8
  deriving DecidableEq

/-- The exit status of every failure. -/
def failureStatus : UInt8 := 255

/-- The exit status of a value: its lowest eight bits. -/
def exitStatus (value : Int64) : UInt8 :=
  value.toUInt64.toUInt8

/-- A fault as it is reported, in bold red. -/
def reportText (f : Fault) : String :=
  "\x1b[1;31mError: " ++ f.text ++ "\x1b[0m\n"

def versionText : String := "qu 0.1.0\n"

def usageText : String := "Usage: qu [OPTIONS] <FILE>\n"

def helpText : String :=
  "Run a qu program\n\n" ++ usageText ++ "\n" ++
  "Arguments:\n" ++
  "  <FILE>  Program to run; the file name must end in `.qu`\n\n" ++
  "Options:\n" ++
  "      --seed <SEED>      Seed POKE with this value instead of the clock\n" ++
  "      --list             Print the numbered listing before running\n" ++
  "      --cycles <CYCLES>  Instructions executed between checks for CTRL-C [default: 5000]\n" ++
  "  -h, --help             Print help\n" ++
  "  -V, --version          Print version\n"

namespace Transcript

def ended (output : String) (status : UInt8) : Transcript :=
  ⟨output, none, status⟩

def failed (output : String) (f : Fault) : Transcript :=
  ⟨output, some (reportText f), failureStatus⟩

end Transcript

/-- Answers a question of the machine with a row of input; without one, the input is at its end. -/
def answer (row : Option Bytes) (m : Machine) : Except Fault Machine :=
  match row with
  | some bytes => (Source.reply bytes).map m.reply
  | none => .ok m.closeInput

/-- Runs slices of `cycles` steps, at most `slices` of them, with what is left of the input and what
was printed before. There is no transcript of a run that needs more slices. -/
def converse (cycles : Nat) : Nat → Machine → List Bytes → String → Option Transcript
  | 0, _, _, _ => none
  | slices + 1, m, input, output =>
      match m.execute cycles with
      | (m', .running) => converse cycles slices m' input output
      | (m', .print text) => converse cycles slices m' input (output ++ text)
      | (m', .input prompt) =>
          match answer input.head? m' with
          | .ok m'' => converse cycles slices m'' input.tail (output ++ prompt)
          | .error f => some (.failed (output ++ prompt) f)
      | (_, .exit value) => some (.ended output (exitStatus value))
      | (_, .fault f) => some (.failed output f)
      | (_, .stopped) => some (.ended output 0)

/-- The machine that a run starts with, and the text printed before it runs. -/
def prepare (clock : Random.Clock) (options : Options) (source : List String) :
    Except Fault (Machine × String) :=
  let blank := Machine.fresh clock
  let seeded := match options.seed with
    | some s => blank.seed s
    | none => blank
  match seeded.load source with
  | (m, .ok ()) => .ok (m, if options.list then m.program.listing else "")
  | (_, .error f) => .error f

/-- Runs a program file. -/
def runFile (clock : Random.Clock) (slices : Nat) (tree : FileTree) (options : Options)
    (input : Bytes) : Option Transcript :=
  match (Source.load tree.read options.file).bind (prepare clock options) with
  | .ok (m, opening) => converse options.cycles slices m (Source.rows input) opening
  | .error f => some (.failed "" f)

/-- Runs the command. -/
def run (clock : Random.Clock) (slices : Nat) (tree : FileTree) (args : List String)
    (input : Bytes) : Option Transcript :=
  match Request.ofArguments args with
  | .run options => runFile clock slices tree options input
  | .version => some (.ended versionText 0)
  | .help => some (.ended helpText 0)
  | .misuse => some (.ended "" failureStatus)

end Command
end Fifo
