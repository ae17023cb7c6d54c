/-
Events.

An event is of a kind and carries data by name.  Which data an event of a kind should carry is a
matter of the one who publishes it; whoever needs a datum that is missing fails with its name.
-/
import TraceDebugger.Event.Kind
import TraceDebugger.Execution.Step
import TraceDebugger.Program.Breakpoint
import TraceDebugger.State.Location

namespace TraceDebugger

/-- The data that an event carries. -/
structure Payload where
  steps : Option (List Step) := none
  addresses : Option (List String) := none
  address : Option (Option String) := none
  binary : Option (Option String) := none
  delta : Option Int := none
  treeId : Option TreeId := none
  assignments : Option Locations := none
  breakpoints : Option (List Breakpoint) := none
  command : Option String := none
  interrupted : Option Bool := none
deriving Inhabited, Repr

/-- Something that happens in the debugger. -/
structure Event where
  kind : EventKind
  payload : Payload := {}
deriving Inhabited, Repr

namespace Event

/-- A datum that has to be there. -/
def need {α : Type} (name : String) : Option α → Except Fault α
  | some value => .ok value
  | none => .error (.unfit (.missingKey (.str name)))

def interrupt : Event := ⟨.interrupt, {}⟩
def next : Event := ⟨.next, {}⟩
def tick : Event := ⟨.tick, {}⟩
def tock : Event := ⟨.tock, {}⟩
def endOfTrace : Event := ⟨.endOfTrace, {}⟩
def returnCall : Event := ⟨.returnCall, {}⟩

def ofCommand (command : Command) : Event := ⟨.command command, {}⟩

def continueUntil (breakpoints : List Breakpoint) : Event :=
  ⟨.command .continueUntil, { breakpoints := some breakpoints }⟩

def beginStep (command : Command) : Event := ⟨.beginStep, { command := some command.name }⟩

/-- A command has ended, at its own end or by an interrupt. -/
def endStep (command : Command) (interrupted : Bool) : Event :=
  ⟨.endStep, { command := some command.name, interrupted := some interrupted }⟩

def saveSteps (steps : List Step) : Event := ⟨.saveSteps, { steps := some steps }⟩

/-- The call targets of the saved trace. -/
def receiveAddresses (addresses : List String) : Event :=
  ⟨.receiveAddresses, { addresses := some addresses }⟩

/-- A call of an address, which may be unknown. -/
def call (address : Option String) : Event := ⟨.call, { address := some address }⟩

def create (binary : Option String) : Event := ⟨.create, { binary := some binary }⟩

def jump (delta : Int) : Event := ⟨.jump, { delta := some delta }⟩

def assign (treeId : TreeId) (assignments : Locations) : Event :=
  ⟨.assign, { treeId := some treeId, assignments := some assignments }⟩

end Event

end TraceDebugger
