import Fifo.Main
import Fifo.Queue.Display
import Fifo.Statement.Canonical
import Fifo.Proofs.Machine.Slicing
import Fifo.Proofs.Machine.History
import Fifo.Proofs.Machine.Outcome
import Fifo.Proofs.Program.Addresses
import Fifo.Proofs.Machine.Coherence
import Fifo.Proofs.Statement.Escapes
import Fifo.Proofs.Statement.Layout
import Fifo.Proofs.Text.Numerals
import Fifo.Proofs.Statement.Arguments
import Fifo.Proofs.Statement.Grammar
import Fifo.Proofs.Statement.RoundTrip
import Fifo.Proofs.Machine.Faults
import Fifo.Proofs.Machine.Failure
import Fifo.Proofs.Machine.Replies
import Fifo.Proofs.Machine.Halting
import Fifo.Proofs.Program.Declarations
import Fifo.Proofs.Program.Insertion
import Fifo.Proofs.Machine.Insertion
import Fifo.Proofs.Command.Conversation
import Fifo.Proofs.Command.Report
import Fifo.Proofs.Value.Order
import Fifo.Proofs.Value.CodePoints
import Fifo.Proofs.Value.Arithmetic
import Fifo.Proofs.Random.Positions
import Fifo.Proofs.Random.Draws
import Fifo.Proofs.Random.Arrangements
import Fifo.Proofs.Machine.Rearranging
import Fifo.Proofs.Machine.Shuffling
import Fifo.Proofs.Machine.Reordering
import Fifo.Proofs.Source.LineEnds
import Fifo.Proofs.Machine.IntegerTexts
import Fifo.Proofs.Machine.Keeping
import Fifo.Proofs.Value.Grouping
import Fifo.Proofs.Program.Listing
import Fifo.Proofs.Queue.Conservation
import Fifo.Proofs.Machine.Printing
import Fifo.Proofs.Machine.Branching
import Fifo.Proofs.Machine.Termination
import Fifo.Proofs.Fault.Reading
