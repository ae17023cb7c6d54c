/-
The workbench: what the parts of a debugging session share.

It holds the slices of the state, the compiled programs, the frame that is held while a step is
processed, the command that runs, and the log.
-/
import TraceDebugger.Log.Line
import TraceDebugger.Program.Registry
import TraceDebugger.State.Slices

namespace TraceDebugger

/-- What the parts of a session share. -/
structure Workbench where
  slices : Slices := {}
  /-- The slices that take events, in the order in which they do. -/
  order : List SliceName := []
  programs : Registry Program := {}
  /-- How addresses are spelled with their checksums, if they are. -/
  checksum : Option Address.Checksum := none
  /-- The frame in which the step under way runs. -/
  held : Option Frame := none
  /-- The command that runs. -/
  active : Option Command := none
  /-- What listeners have noted, newest first. -/
  heard : List (String × EventKind) := []
  lines : List LogLine := []
deriving Inhabited

namespace Workbench

def recording (bench : Workbench) : Recording := bench.slices.recording

/-- The cursor, once a trace is loaded. -/
def loadedCursor (bench : Workbench) : Option Nat :=
  if bench.recording.loaded then some bench.recording.cursor else none

def log (level : Int) (component message : String) (bench : Workbench) : Workbench :=
  let line : LogLine := { level, component, message, cursor := bench.loadedCursor }
  { bench with lines := line :: bench.lines }

def reduce (event : Event) (bench : Workbench) : Workbench × Option Fault :=
  let (slices, fault) := bench.slices.reduce event bench.order
  ({ bench with slices }, fault)

end Workbench

end TraceDebugger
