/-
What a caller can do with a session.

A request only begins something; `perform` makes a request, lets the session settle and collects the
answer.  If the caller still waits then, nothing can move any more, and an interrupt is published to
release it.
-/
import TraceDebugger.Execution.StructLog
import TraceDebugger.Session.Loop

namespace TraceDebugger

namespace Session

/-- The listeners of a session, in their order. -/
def listeners : List Listener :=
  [.holdFrame, .followJumps, .releaseFrame, .trackCalls, .bindVariables, .reportBusy]

/-- The slices of a session, in their order. -/
def slices : List SliceName := [.functionDepth, .recording, .callStack, .bindings]

def new (programs : Registry Program) (checksum : Option Address.Checksum) (initialDepth : Int) :
    Session :=
  { store :=
      { bench :=
          { slices := { functionDepth := ⟨initialDepth, initialDepth⟩ }
            order := slices, programs, checksum }
        listeners } }

/-- Let the engine and the dispatcher reach their first waits, unless they have been started. -/
def start (session : Session) : Session :=
  match session.engine with
  | .absent =>
    let (ticket, session) := session.take [.saveSteps]
    { session with engine := .awaitingTrace ticket }.awaitCommand
  | _ => session

/-- Load a trace whose first frame is that of an address or of code under deployment. -/
def load (steps : List Step) (address binary : Option String) (session : Session) : Session :=
  let session := session.start
  if session.bench.recording.loaded then session.answer (.error .traceAlreadyLoaded)
  else
    let (ticket, session) := session.take [.receiveAddresses]
    match session.put (.saveSteps steps) with
    | (session, some fault) => session.answer (.error fault)
    | (session, none) =>
      let session := { session with caller := .loading ticket address binary }
      if (session.store.outcome? ticket).isSome then session.resumeCaller else session

/-- The command that stands in the way of another one. -/
def busyWith (session : Session) : Option Command := session.running.or session.bench.active

/-- Why a command cannot be given now. -/
def refusal? (command : Command) (session : Session) : Option Fault :=
  if session.bench.recording.loaded then
    match session.dispatcher, session.busyWith with
    | .crashed fault, _ => some fault
    | _, some running => some (.commandInProgress command.name running.name)
    | _, none => none
  else some .traceNotLoaded

/-- Publish a command and wait for the end of its cycle. -/
def issue (command : Command) (event : Event) (session : Session) : Session :=
  let (ticket, session) := { session with running := some command }.take [.endStep]
  match session.put event, session.dispatcher with
  | (session, some fault), _ => { session with running := none }.answer (.error fault)
  | (session, none), .absent =>
    { session with running := none }.answer
      (.error (.unfit (.noMember Json.null.kindName "add_done_callback")))
  | (session, none), _ =>
    let session := { session with caller := .commanding ticket false }
    if (session.store.outcome? ticket).isSome then session.later .reply else session

def give (command : Command) (event : Event) (session : Session) : Session :=
  match session.refusal? command with
  | some fault => session.answer (.error fault)
  | none => session.issue command event

/-- Run the cycle of a command beside the dispatcher. -/
def dispatch (event : Event) (session : Session) : Session :=
  match event.kind.command? with
  | none => session.answer (.error (.unknownCommand event.kind.name))
  | some command => { session with caller := .dispatching }.beginCycle .direct command event

def publish (event : Event) (session : Session) : Session :=
  match session.put event with
  | (session, none) => session.answer (.ok .nothing)
  | (session, some fault) => session.answer (.error fault)

end Session

inductive Request where
  | load (steps : List Step) (address binary : Option String)
  | loadLogs (entries : List Json) (address binary : Option String)
  | command (command : Command) (event : Event)
  | interrupt
  | put (event : Event)
  | dispatch (event : Event)
deriving Inhabited

structure Outcome where
  /-- The answer; none if the request had to be given up. -/
  result : Option (Except Fault Reply)
  /-- The caller was left waiting. -/
  stuck : Bool
deriving Inhabited

namespace Session

def ask (session : Session) : Request → Session
  | .load steps address binary => session.load steps address binary
  | .loadLogs entries address binary =>
    match StructLog.toSteps entries with
    | .ok steps => session.load steps address binary
    | .error fault => session.answer (.error fault)
  | .command command event => session.give command event
  | .interrupt => session.publish .interrupt
  | .put event => session.publish event
  | .dispatch event => session.dispatch event

def answer? (session : Session) : Option (Except Fault Reply) :=
  match session.caller with
  | .answered result => some result
  | _ => none

/-- Leave the caller without anything to wait for. -/
def release (session : Session) : Session :=
  let session := match session.caller with
    | .loading ticket .. => session.onStore (Store.cancel ticket)
    | _ => session
  { session with caller := .idle }

/-- Let the session settle and collect the answer, with an interrupt if there is none. -/
def conclude (session : Session) : Session × Outcome :=
  let session := session.settle
  match session.answer? with
  | some result => (session.release, ⟨some result, false⟩)
  | none =>
    let session := (session.put .interrupt).1.settle
    (session.release, ⟨session.answer?, true⟩)

def perform (request : Request) (session : Session) : Session × Outcome :=
  (session.ask request).conclude

/-- The next turn is the first one of a pursuit. -/
def atPursuit (session : Session) : Bool :=
  match session.turns with
  | .run lane :: _ => match session.cycle? lane with
    | some { run := .queued none, .. } => true
    | _ => false
  | _ => false

/-- Take turns until a pursuit is about to begin. -/
def runToPursuit : Nat → Session → Session
  | 0, session => session
  | turns + 1, session =>
    if session.atPursuit then session
    else match session.step? with
      | some next => runToPursuit turns next
      | none => session

/-- Give a command, and another one once the first has begun, and perhaps interrupt then.  The
answer is what came of the first one, and why the second one was refused. -/
def giveTogether (first : Command) (event : Event) (second : Command) (interrupting : Bool)
    (session : Session) : Session × Outcome × Option Fault :=
  let session := session.give first event
  let session := session.runToPursuit session.turnLimit
  let refused := session.refusal? second
  let session := if interrupting then (session.put .interrupt).1 else session
  let (session, outcome) := session.conclude
  (session, outcome, refused)

/-- Arm the tripwires that go with a request, in place of those of the one before. -/
def withTripwires (wires : List (EventKind × Option Int × Event)) (session : Session) : Session :=
  session.onStore fun store =>
    wires.foldl (fun store (kind, cursor, event) => store.arm kind cursor event) store.disarm

end Session

end TraceDebugger
