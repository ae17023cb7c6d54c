/-
The stepping algorithms.

A command is run as a pursuit: it advances step by step and looks at the position after every
advance.  Apart from the single advance, all pursuits walk from one resting place to the next.  A
walk rests where the instruction belongs to another source range than the one at which the walk
began, unless it belongs to none or to a contract as a whole; at a resting place the purpose of the
walk decides whether another walk follows.
-/
import TraceDebugger.Workbench.View

namespace TraceDebugger

/-- What a walk is part of. -/
inductive Purpose where
  | segment
  /-- To another line of the same function, or out of it. -/
  | over (depth : Int) (start : Option SourceRange)
  /-- Into a function that is called in a range, or out of the range. -/
  | into (depth : Int) (start : Option SourceRange)
  | out (depth : Int)
  | toBreakpoint (breakpoints : List Breakpoint)
deriving Repr, Inhabited

/-- How a command goes on. -/
inductive Pursuit where
  | single
  /-- A walk that began at a range. -/
  | walk (start : Option SourceRange) (purpose : Purpose)
deriving Repr, Inhabited

namespace Workbench

def functionDepth (bench : Workbench) : Int := bench.slices.functionDepth.depth

def finished (bench : Workbench) : Bool := bench.recording.finished

def walk (bench : Workbench) (purpose : Purpose) : Except Fault Pursuit :=
  bench.range.map fun range => .walk range purpose

def stepOver (bench : Workbench) : Except Fault Pursuit := do
  bench.walk (.over bench.functionDepth (← bench.range))

def stepInto (bench : Workbench) : Except Fault Pursuit := do
  if bench.opIs Opcode.isJump then bench.walk .segment
  else if ← bench.isMultiline then bench.stepOver
  else bench.walk (.into bench.functionDepth (← bench.range))

def stepOut (bench : Workbench) : Except Fault Pursuit := do
  if ← bench.isMultiline then bench.stepOver
  else bench.walk (.out bench.functionDepth)

def begin (bench : Workbench) (event : Event) : Command → Except Fault Pursuit
  | .advance => .ok .single
  | .stepNext => bench.walk .segment
  | .stepOver => bench.stepOver
  | .stepInto => bench.stepInto
  | .stepOut => bench.stepOut
  | .continueUntil => do
    bench.walk (.toBreakpoint (← Event.need "breakpoints" event.payload.breakpoints))

/-- A walk from a range rests here. -/
def restsFrom (bench : Workbench) (start : Option SourceRange) : Except Fault Bool := do
  let node ← bench.node
  let range ← bench.range
  return !(node.any fun node => node.kind = .contract) && range.isSome
    && !SourceRange.same range start

/-- Another walk follows at a resting place. -/
def walksOn (bench : Workbench) : Purpose → Except Fault Bool
  | .segment => .ok false
  | .over depth start => do
    let range ← bench.range
    return depth ≤ bench.functionDepth
      && (depth < bench.functionDepth || SourceRange.sameLine range start)
  | .into depth start => do
    let range ← bench.range
    return bench.functionDepth ≤ depth && SourceRange.within start range
  | .out depth => .ok (depth ≤ bench.functionDepth)
  | .toBreakpoint breakpoints => do
    let range ← bench.range
    let node ← bench.node
    return !Breakpoint.anyHit breakpoints bench.currentCall range (node.map (·.id))

/-- What remains to be done of a pursuit after an advance; nothing once it is over. -/
def proceed (bench : Workbench) : Pursuit → Except Fault (Option Pursuit)
  | .single => .ok none
  | .walk start purpose => do
    if bench.finished then return none
    if ← bench.restsFrom start then
      if ← bench.walksOn purpose then return some (← bench.walk purpose) else return none
    else return some (.walk start purpose)

/-- Tell in the log that a pursuit is over because a breakpoint was hit. -/
def reportHit (bench : Workbench) : Pursuit → Workbench
  | .walk _ (.toBreakpoint _) =>
    if bench.finished then bench
    else bench.log LogLevel.debug "controller" s!"breakpoint hit at step {bench.recording.cursor}"
  | _ => bench

end Workbench

end TraceDebugger
