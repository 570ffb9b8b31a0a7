import RegisterMachine.CommandLine.Arguments
import RegisterMachine.CommandLine.Execution
import RegisterMachine.CommandLine.Inspection
import RegisterMachine.CommandLine.Usage
import RegisterMachine.Debug.Breakpoints
import RegisterMachine.Debug.Protocol
import RegisterMachine.Debug.Run
import RegisterMachine.Debug.Session
import RegisterMachine.Debug.Wire
import RegisterMachine.Decimal.Digits
import RegisterMachine.Decimal.Reading
import RegisterMachine.Decimal.Shortest
import RegisterMachine.Fault
import RegisterMachine.Frame.Basic
import RegisterMachine.Frame.Registers
import RegisterMachine.Json.Basic
import RegisterMachine.Json.Decoder
import RegisterMachine.Json.Number
import RegisterMachine.Json.Reader
import RegisterMachine.Json.Token
import RegisterMachine.Json.Writer
import RegisterMachine.Machine.Basic
import RegisterMachine.Machine.Local
import RegisterMachine.Machine.Run
import RegisterMachine.Machine.Scheduler
import RegisterMachine.Machine.Step
import RegisterMachine.Main
import RegisterMachine.Native.Basic
import RegisterMachine.Native.Strings
import RegisterMachine.Program.Basic
import RegisterMachine.Program.Codec
import RegisterMachine.Program.Instruction
import RegisterMachine.Regex.Basic
import RegisterMachine.Regex.Library
import RegisterMachine.Regex.Match
import RegisterMachine.Regex.Nesting
import RegisterMachine.Regex.Reader
import RegisterMachine.Regex.Replace
import RegisterMachine.Regex.Token
import RegisterMachine.Settings.Basic
import RegisterMachine.Settings.Dotenv
import RegisterMachine.Settings.Load
import RegisterMachine.Settings.Toml
import RegisterMachine.Settings.Tree
import RegisterMachine.Text.Blank
import RegisterMachine.Text.Case
import RegisterMachine.Text.Hex
import RegisterMachine.Text.Utf8
import RegisterMachine.Text.Word
import RegisterMachine.Value.Basic
import RegisterMachine.Value.Copy
import RegisterMachine.Value.Growable
import RegisterMachine.Value.Heap
import RegisterMachine.Value.Iterator
import RegisterMachine.Value.Liveness
import RegisterMachine.Value.Object
import RegisterMachine.Value.Render
import RegisterMachine.Proofs.Agree
import RegisterMachine.Proofs.Checked.Basic
import RegisterMachine.Proofs.Checked.Frames
import RegisterMachine.Proofs.Checked.Machine
import RegisterMachine.Proofs.Checked.Objects
import RegisterMachine.Proofs.Checked.Runs
import RegisterMachine.Proofs.Checked.Sessions
import RegisterMachine.Proofs.Checked.Values
import RegisterMachine.Proofs.Debug.Alone
import RegisterMachine.Proofs.Debug.Answering
import RegisterMachine.Proofs.Debug.Bridge
import RegisterMachine.Proofs.Debug.Commands
import RegisterMachine.Proofs.Debug.Debuggee
import RegisterMachine.Proofs.Debug.Delivery
import RegisterMachine.Proofs.Debug.Driving
import RegisterMachine.Proofs.Debug.Events
import RegisterMachine.Proofs.Debug.Framing
import RegisterMachine.Proofs.Debug.Gate
import RegisterMachine.Proofs.Debug.Grammar
import RegisterMachine.Proofs.Debug.Readers
import RegisterMachine.Proofs.Debug.Registry
import RegisterMachine.Proofs.Debug.Replacing
import RegisterMachine.Proofs.Debug.Spelling
import RegisterMachine.Proofs.Debug.Stages
import RegisterMachine.Proofs.Debug.Stops
import RegisterMachine.Proofs.Debug.Transparency
import RegisterMachine.Proofs.Frame.Alike
import RegisterMachine.Proofs.Frame.Arguments
import RegisterMachine.Proofs.Frame.Binding
import RegisterMachine.Proofs.Frame.Execution
import RegisterMachine.Proofs.Frame.InPlace
import RegisterMachine.Proofs.Frame.Places
import RegisterMachine.Proofs.Frame.Refusals
import RegisterMachine.Proofs.InPlace
import RegisterMachine.Proofs.Json.Lexing
import RegisterMachine.Proofs.Json.Printing
import RegisterMachine.Proofs.Json.Reading
import RegisterMachine.Proofs.Json.Yielding
import RegisterMachine.Proofs.Machine.Balance
import RegisterMachine.Proofs.Machine.Bookkeeping
import RegisterMachine.Proofs.Machine.Calls
import RegisterMachine.Proofs.Machine.Course
import RegisterMachine.Proofs.Machine.Depth
import RegisterMachine.Proofs.Machine.Division
import RegisterMachine.Proofs.Machine.Draining
import RegisterMachine.Proofs.Machine.Effects
import RegisterMachine.Proofs.Machine.Faults
import RegisterMachine.Proofs.Machine.InPlace
import RegisterMachine.Proofs.Machine.Indexing
import RegisterMachine.Proofs.Machine.Interleaving
import RegisterMachine.Proofs.Machine.Iteration
import RegisterMachine.Proofs.Machine.Launching
import RegisterMachine.Proofs.Machine.Linkage
import RegisterMachine.Proofs.Machine.Local
import RegisterMachine.Proofs.Machine.Mirroring
import RegisterMachine.Proofs.Machine.Moves
import RegisterMachine.Proofs.Machine.Natives
import RegisterMachine.Proofs.Machine.Phases
import RegisterMachine.Proofs.Machine.Reach
import RegisterMachine.Proofs.Machine.Renumbering
import RegisterMachine.Proofs.Machine.Safety
import RegisterMachine.Proofs.Machine.Schedules
import RegisterMachine.Proofs.Machine.SideBySide
import RegisterMachine.Proofs.Machine.Spawning
import RegisterMachine.Proofs.Machine.Tasks
import RegisterMachine.Proofs.Machine.Traces
import RegisterMachine.Proofs.Machine.Watching
import RegisterMachine.Proofs.Meets
import RegisterMachine.Proofs.Native.Indifferent
import RegisterMachine.Proofs.Program.Loading
import RegisterMachine.Proofs.Program.Operands
import RegisterMachine.Proofs.Program.Positions
import RegisterMachine.Proofs.Program.WellFormed
import RegisterMachine.Proofs.Program.Writing
import RegisterMachine.Proofs.Regex.Anchoring
import RegisterMachine.Proofs.Regex.Lexing
import RegisterMachine.Proofs.Regex.Library
import RegisterMachine.Proofs.Regex.Reading
import RegisterMachine.Proofs.Regex.Repeating
import RegisterMachine.Proofs.Regex.Scanning
import RegisterMachine.Proofs.Regex.Ways
import RegisterMachine.Proofs.Text.Utf8
import RegisterMachine.Proofs.Value.Alike
import RegisterMachine.Proofs.Value.Copy
import RegisterMachine.Proofs.Value.Graph
import RegisterMachine.Proofs.Value.Growable
import RegisterMachine.Proofs.Value.Growth
import RegisterMachine.Proofs.Value.InPlace
import RegisterMachine.Proofs.Value.Indexing
import RegisterMachine.Proofs.Value.Isolation
import RegisterMachine.Proofs.Value.Liveness
import RegisterMachine.Proofs.Value.Ownership
import RegisterMachine.Proofs.Value.Render
import RegisterMachine.Proofs.Value.Sameness
import RegisterMachine.Proofs.Value.Soundness
import RegisterMachine.Proofs.Value.Traversal
import RegisterMachine.Proofs.Value.Typed
import RegisterMachine.Proofs.Value.Unfolding
import RegisterMachine.Proofs.Value.Within
