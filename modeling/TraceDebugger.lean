import TraceDebugger.Execution.StructLog
import TraceDebugger.Fault.Report
import TraceDebugger.Log.Record
import TraceDebugger.Session.Control
import TraceDebugger.Settings.Document
import TraceDebugger.Yaml.Block
import TraceDebugger.SourceMap.ProgramMap
import TraceDebugger.Storage.Layout
import TraceDebugger.Proofs.Session.Chronicle
import TraceDebugger.Proofs.Session.Confluence
import TraceDebugger.Proofs.Session.Owner
import TraceDebugger.Proofs.Session.Stops
import TraceDebugger.Proofs.Store.Delivery
import TraceDebugger.Proofs.Session.Turned
import TraceDebugger.Proofs.Store.Tripwires
import TraceDebugger.Proofs.Session.Tripwires
import TraceDebugger.Proofs.Session.ArmedTurns
import TraceDebugger.Proofs.Session.OrderPhases
import TraceDebugger.Proofs.Session.Race
import TraceDebugger.Proofs.Session.Ends
import TraceDebugger.Proofs.Storage.Stability
import TraceDebugger.Proofs.Storage.Arrays
import TraceDebugger.Proofs.Session.Comparison
import TraceDebugger.Proofs.Session.Tasks
import TraceDebugger.Proofs.Session.Spelling
import TraceDebugger.Proofs.Session.Depths
import TraceDebugger.Proofs.Session.Callees
import TraceDebugger.Proofs.Session.Visits
import TraceDebugger.Proofs.Session.Breakpoints
import TraceDebugger.Proofs.Session.Frames
import TraceDebugger.Proofs.Session.HeardInterrupts
import TraceDebugger.Proofs.Session.Served
import TraceDebugger.Proofs.Session.Sources
import TraceDebugger.Proofs.Session.Bindings
import TraceDebugger.Proofs.Session.Slots
import TraceDebugger.Proofs.Session.Accord
import TraceDebugger.Proofs.Session.Levels
import TraceDebugger.Proofs.Session.Latest
import TraceDebugger.Proofs.Text.Decimal
import TraceDebugger.Proofs.SourceMap.Decompression
import TraceDebugger.Proofs.SyntaxTree.Places
import TraceDebugger.Proofs.Store.Moments
import TraceDebugger.Proofs.Store.Erasure
import TraceDebugger.Proofs.SourceMap.Lines
import TraceDebugger.Proofs.SourceMap.Instructions
import TraceDebugger.Proofs.SourceMap.Malformed
import TraceDebugger.Proofs.Storage.Overlaps
import TraceDebugger.Proofs.SourceMap.Bytes
import TraceDebugger.Proofs.SourceMap.Ranges
import TraceDebugger.Proofs.SyntaxTree.Enclosure
import TraceDebugger.Proofs.Session.Targets
import TraceDebugger.Proofs.Execution.Words
import TraceDebugger.Proofs.Execution.Entries
import TraceDebugger.Proofs.Settings.Precedence
