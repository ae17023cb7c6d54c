/-
Listeners.

A listener reacts to the events of some kinds: it may change the workbench, and it answers with
further events, which are published one after the other inside the event that it heard.
-/
import TraceDebugger.Workbench.View

namespace TraceDebugger

/-- A part that reacts to events. -/
inductive Listener where
  /-- Keeps the frame in which a step runs from before the step changes the call stack. -/
  | holdFrame
  | followJumps
  /-- Lets go of the frame after the step. -/
  | releaseFrame
  /-- Follows calls, deployments and returns. -/
  | trackCalls
  /-- Finds where the variables live that a step defines. -/
  | bindVariables
  | reportBusy
  /-- Notes events under a tag and answers each with further events. -/
  | relay (tag : String) (kinds : List EventKind) (answer : Event → List Event)
deriving Inhabited

namespace Listener

/-- How often an event of a kind is heard. -/
def hearings (kind : EventKind) : Listener → Nat
  | holdFrame | followJumps | trackCalls | bindVariables => if kind = .tick then 1 else 0
  | releaseFrame => if kind = .tock ∨ kind = .endOfTrace then 1 else 0
  | reportBusy => if kind.command?.isSome then 1 else 0
  | relay _ kinds _ => kinds.count kind

end Listener

namespace Workbench

/-- What a reaction leaves: the workbench, and the events to publish unless it failed. -/
abbrev Reaction := Workbench × Except Fault (List Event)

/-- The code under deployment in bytes, as it is told in the log. -/
def binarySizeText : Option String → String
  | some binary => if binary = "" then "unknown" else toString ((binary.length / 2 : Nat) - 1 : Int)
  | none => "unknown"

def followJumps (bench : Workbench) : Reaction :=
  (bench, bench.jump.map fun jump => match jump with
    | .into => [.jump 1]
    | .out => [.jump (-1)]
    | _ => [])

def trackCalls (bench : Workbench) : Reaction :=
  match bench.step with
  | none => (bench, .ok [])
  | some step =>
    if Opcode.isCall step.op then
      match bench.callAddress with
      | .error fault => (bench, .error fault)
      | .ok address =>
        (bench.log LogLevel.debug "callstack" ("got call to " ++ Address.display true address),
          .ok [.call address])
    else if Opcode.isCreate step.op then
      match bench.createBinary with
      | .error fault => (bench, .error fault)
      | .ok binary =>
        (bench.log LogLevel.debug "callstack"
          s!"got create ({binarySizeText binary} bytes of init code)", .ok [.create binary])
    else if Opcode.isHalting step.op then
      (bench.log LogLevel.debug "callstack"
        s!"got {step.op}, returning from depth {bench.slices.callStack.depth}",
        .ok [.returnCall])
    else (bench, .ok [])

/-- The stack slots of the declarations of a function at its entry: return parameters and then
parameters, from the top of the stack downwards. -/
def functionParameters (tree : SyntaxTree) (node : Node) (top : Int) : Except Fault Locations := do
  let results ← node.parameterPaths "returnParameters"
  let parameters ← node.parameterPaths "parameters"
  let entries ← (results ++ parameters).zipIdx.mapM fun (path, rank) => do
    return ((← tree.resolve path).id, Location.stack (top - (rank : Int)))
  return Locations.ofEntries entries

def scopeVariables (bench : Workbench) (contract : NodeId) : Except Fault (List ScopeVariable) :=
  bench.scopes.map fun scopes =>
    ((SyntaxTree.valueOf? contract scopes).map (·.members)).getD []

def stateLocations (bench : Workbench) (members : List ScopeVariable) :
    Except Fault Locations := do
  let definitions ← bench.definitions
  let allocation ← Storage.allocate definitions (members.map ScopeVariable.toJson)
  return allocation.places.map fun (id, place) => (id, Location.storage place)

def announceBindings (node : Node) (locations : Locations) (bench : Workbench) : Reaction :=
  let bench := bench.log LogLevel.debug "bindings"
    s!"assigning {locations.length} binding(s) at {node.path.text}"
  (bench, bench.treeId.map fun treeId => [.assign treeId locations])

def announceFound (node : Node) (bench : Workbench) : Except Fault Locations → Reaction
  | .error fault => (bench, .error fault)
  | .ok locations => bench.announceBindings node locations

/-- Find the variables that a step defines at a node of a tree, given the top of its stack. -/
def bindAt (tree : SyntaxTree) (node : Node) (top : Int) (bench : Workbench) : Reaction :=
  match node.kind with
  | .function => bench.announceFound node (functionParameters tree node top)
  | .variableDeclaration => bench.announceBindings node [(node.id, .stack top)]
  | .contract =>
    match bench.scopeVariables node.id with
    | .error fault => (bench, .error fault)
    | .ok members =>
      let names := Json.arr (members.map (·.name))
      let bench := bench.log LogLevel.debug "bindings" ("storage vars " ++ names.literal)
      bench.announceFound node (bench.stateLocations members)
  | .other => (bench, .ok [])

def bindVariables (bench : Workbench) : Reaction :=
  match bench.step.bind (·.stack) with
  | none => (bench.log LogLevel.trace "bindings" "no stack at this step, skipping bindings", .ok [])
  | some words =>
    match bench.node, bench.tree with
    | .ok (some node), .ok (some tree) => bench.bindAt tree node ((words.length : Int) - 1)
    | .error fault, _ => (bench, .error fault)
    | _, .error fault => (bench, .error fault)
    | _, _ => (bench, .ok [])

def reportBusy (event : Event) (bench : Workbench) : Workbench :=
  match bench.active with
  | some running =>
    bench.log LogLevel.warning "controller"
      s!"{event.kind.name} ignored: {running.name} still running"
  | none => bench

def react (event : Event) (bench : Workbench) : Listener → Reaction
  | .holdFrame => ({ bench with held := some bench.currentCall }, .ok [])
  | .followJumps => bench.followJumps
  | .releaseFrame => ({ bench with held := none }, .ok [])
  | .trackCalls => bench.trackCalls
  | .bindVariables => bench.bindVariables
  | .reportBusy => (bench.reportBusy event, .ok [])
  | .relay tag _ answer =>
    ({ bench with heard := (tag, event.kind) :: bench.heard }, .ok (answer event))

end Workbench

end TraceDebugger
