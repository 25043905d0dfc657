import BankTrace.ChannelMask
import BankTrace.CommandLine
import BankTrace.Config
import BankTrace.Config.Draft
import BankTrace.Config.Text
import BankTrace.Config.Validation
import BankTrace.ConfigFile
import BankTrace.Emission
import BankTrace.Error
import BankTrace.Event
import BankTrace.FileTree
import BankTrace.Geometry
import BankTrace.Host
import BankTrace.Instruction
import BankTrace.Json.Error
import BankTrace.Json.Number
import BankTrace.Json.Reader
import BankTrace.Json.Value
import BankTrace.Main
import BankTrace.MemoryHost
import BankTrace.Opcode
import BankTrace.Path
import BankTrace.Proofs.ChannelMask.Channels
import BankTrace.Proofs.ChannelMask.Literals
import BankTrace.Proofs.CommandLine.Arguments
import BankTrace.Proofs.CommandLine.Replay
import BankTrace.Proofs.Config.LineCount
import BankTrace.Proofs.Config.Members
import BankTrace.Proofs.Config.Outputs
import BankTrace.Proofs.Config.Overlay
import BankTrace.Proofs.Config.RoundTrip
import BankTrace.Proofs.Config.Rules
import BankTrace.Proofs.Config.Validity
import BankTrace.Proofs.ConfigFile
import BankTrace.Proofs.Emission.Drain
import BankTrace.Proofs.Emission.Failures
import BankTrace.Proofs.Emission.Limited
import BankTrace.Proofs.Emission.Pattern
import BankTrace.Proofs.Emission.Records
import BankTrace.Proofs.Emission.Truncated
import BankTrace.Proofs.FileTree.Beside
import BankTrace.Proofs.FileTree.Created
import BankTrace.Proofs.FileTree.Descent
import BankTrace.Proofs.FileTree.Enlarged
import BankTrace.Proofs.FileTree.Entries
import BankTrace.Proofs.FileTree.Leads
import BankTrace.Proofs.FileTree.Lexical
import BankTrace.Proofs.FileTree.Obstacles
import BankTrace.Proofs.FileTree.Operations
import BankTrace.Proofs.FileTree.Meets
import BankTrace.Proofs.FileTree.Places
import BankTrace.Proofs.FileTree.Reaches
import BankTrace.Proofs.Instruction.Complete
import BankTrace.Proofs.Instruction.Reading
import BankTrace.Proofs.Json.Containers
import BankTrace.Proofs.Json.Grammar
import BankTrace.Proofs.Json.Leaves
import BankTrace.Proofs.Json.Names
import BankTrace.Proofs.Json.Skipping
import BankTrace.Proofs.Json.Spread
import BankTrace.Proofs.Json.Takes
import BankTrace.Proofs.Json.Verdicts
import BankTrace.Proofs.MemoryHost
import BankTrace.Proofs.Opcode.Names
import BankTrace.Proofs.Path.Components
import BankTrace.Proofs.Path.FileNames
import BankTrace.Proofs.Path.Parents
import BankTrace.Proofs.Path.Steps
import BankTrace.Proofs.Publication.Alongside
import BankTrace.Proofs.Publication.Apart
import BankTrace.Proofs.Publication.Atomicity
import BankTrace.Proofs.Publication.Contract
import BankTrace.Proofs.Publication.Directories
import BankTrace.Proofs.Publication.Endings
import BankTrace.Proofs.Publication.Failures
import BankTrace.Proofs.Publication.FaultyHost
import BankTrace.Proofs.Publication.Frame
import BankTrace.Proofs.Publication.Gate
import BankTrace.Proofs.Publication.Leftovers
import BankTrace.Proofs.Publication.Opened
import BankTrace.Proofs.Publication.Outcome
import BankTrace.Proofs.Publication.Partial
import BankTrace.Proofs.Publication.PartialPath
import BankTrace.Proofs.Publication.Series
import BankTrace.Proofs.Publication.Spared
import BankTrace.Proofs.Publication.Stages
import BankTrace.Proofs.Publication.Touched
import BankTrace.Proofs.Sink.Exact
import BankTrace.Proofs.Sink.Limited
import BankTrace.Proofs.Sink.Records
import BankTrace.Proofs.Text.Numeral
import BankTrace.Proofs.Text.Spelling
import BankTrace.Proofs.Traversal.Channels
import BankTrace.Proofs.Traversal.Neighbours
import BankTrace.Proofs.Traversal.Position
import BankTrace.Proofs.Traversal.Regrouping
import BankTrace.Proofs.Traversal.Requests
import BankTrace.Proofs.Traversal.Run
import BankTrace.Proofs.Traversal.Spacing
import BankTrace.Proofs.World
import BankTrace.Proofs.Writer.Closed
import BankTrace.Proofs.Writer.Session
import BankTrace.Publication
import BankTrace.RequestError
import BankTrace.Sink
import BankTrace.Text.Blank
import BankTrace.Text.Numeral
import BankTrace.Text.Quoted
import BankTrace.Text.Shortest
import BankTrace.Text.Unseen
import BankTrace.Text.Utf8
import BankTrace.Traversal
import BankTrace.Writer
