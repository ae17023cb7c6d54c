/-
The parts of a debugging session and what each of them waits for.

The parts take turns.  The engine waits for a trace and then serves the requests for steps; the
dispatcher waits for commands and runs each of them in a cycle; the caller waits for the end of what
it asked for.  Whoever is given what it waits for joins the end of the queue of turns.
-/
import TraceDebugger.Session.Pursuit
import TraceDebugger.Store.Publish

namespace TraceDebugger

/-- Who runs a cycle: the dispatcher itself, or the caller beside it. -/
inductive Lane where
  | own
  | direct
deriving DecidableEq, Repr, Inhabited

/-- The state of a command's pursuit. -/
inductive RunStatus where
  /-- It has a turn to come; without a pursuit it has yet to begin. -/
  | queued (pursuit : Option Pursuit)
  /-- It waits for an advance to complete. -/
  | waiting (ticket : Ticket) (pursuit : Pursuit)
  | finished (fault : Option Fault)
  | cancelled
deriving Inhabited

/-- A command that is run, in a race against an interrupt. -/
structure Cycle where
  command : Command
  /-- The event by which the command was given. -/
  event : Event
  interrupt : Ticket
  run : RunStatus := .queued none
  settled : Bool := false
  /-- The interrupt has won, and the pursuit is to be dropped. -/
  stopping : Bool := false
deriving Inhabited

inductive EngineStatus where
  | absent
  | awaitingTrace (ticket : Ticket)
  | receivingTrace
  /-- It waits for a request for a step. -/
  | awaitingRequest (channel : Ticket)
  /-- It has a turn to come in which it serves a request. -/
  | serving (channel : Ticket)
  | halted (fault : Fault)
deriving Inhabited

inductive DispatcherStatus where
  | absent
  | awaitingCommand (ticket : Ticket)
  | working
  | crashed (fault : Fault)
deriving Inhabited

inductive Reply where
  | nothing
  /-- For a command, that it ran to its end; for a dispatched one, that it was interrupted. -/
  | flag (value : Bool)
  | targets (addresses : List String)
deriving DecidableEq, Repr, Inhabited

inductive CallerStatus where
  | idle
  /-- It waits for the call targets of its trace. -/
  | loading (ticket : Ticket) (address binary : Option String)
  /-- It waits for the end of its command; `settled` once the wait is decided. -/
  | commanding (ticket : Ticket) (settled : Bool)
  | dispatching
  | answered (result : Except Fault Reply)
deriving Inhabited

inductive Turn where
  | trace (event : Event)
  | engine
  | command (event : Event)
  /-- The pursuit in a lane goes on. -/
  | run (lane : Lane)
  /-- The race in a lane is decided. -/
  | race (lane : Lane)
  | cycle (lane : Lane)
  /-- The caller's wait for its command is decided. -/
  | reply
  | caller
deriving Inhabited

/-- A debugging session. -/
structure Session where
  store : Store
  engine : EngineStatus := .absent
  dispatcher : DispatcherStatus := .absent
  /-- The cycle that the dispatcher runs. -/
  ownCycle : Option Cycle := none
  /-- The cycle that the caller runs beside the dispatcher. -/
  directCycle : Option Cycle := none
  caller : CallerStatus := .idle
  /-- The command that the caller has given. -/
  running : Option Command := none
  turns : List Turn := []
deriving Inhabited

namespace Session

/-- What the parts share. -/
def bench (session : Session) : Workbench := session.store.bench

/-- Join the end of the queue. -/
def later (turn : Turn) (session : Session) : Session :=
  { session with turns := session.turns ++ [turn] }

/-- Go on at once. -/
def atOnce (turn : Turn) (session : Session) : Session :=
  { session with turns := turn :: session.turns }

def cycle? (session : Session) : Lane → Option Cycle
  | .own => session.ownCycle
  | .direct => session.directCycle

def setCycle (lane : Lane) (cycle : Option Cycle) (session : Session) : Session :=
  match lane with
  | .own => { session with ownCycle := cycle }
  | .direct => { session with directCycle := cycle }

def onCycle (lane : Lane) (change : Cycle → Cycle) (session : Session) : Session :=
  session.setCycle lane ((session.cycle? lane).map change)

def setRun (lane : Lane) (run : RunStatus) (session : Session) : Session :=
  session.onCycle lane fun cycle => { cycle with run }

def onStore (change : Store → Store) (session : Session) : Session :=
  { session with store := change session.store }

def log (level : Int) (component message : String) (session : Session) : Session :=
  session.onStore fun store => store.log level component message

def take (kinds : List EventKind) (session : Session) : Ticket × Session :=
  let (ticket, store) := session.store.take kinds
  (ticket, { session with store })

def tellLane (ticket : Ticket) (lane : Lane) (session : Session) : Session :=
  match session.cycle? lane with
  | none => session
  | some cycle =>
    if cycle.interrupt = ticket then
      if cycle.stopping then session else session.later (.race lane)
    else match cycle.run with
      | .waiting awaited pursuit =>
        if awaited = ticket then
          (session.setRun lane (.queued (some pursuit))).later (.run lane)
        else session
      | _ => session

def tellEngine (ticket : Ticket) (event : Event) (session : Session) : Session :=
  match session.engine with
  | .awaitingTrace awaited =>
    if awaited = ticket then
      { session with engine := .receivingTrace }.later (.trace event)
    else session
  | _ => session

def tellDispatcher (ticket : Ticket) (event : Event) (session : Session) : Session :=
  match session.dispatcher with
  | .awaitingCommand awaited =>
    if awaited = ticket then { session with dispatcher := .working }.later (.command event)
    else session
  | _ => session

def tellCaller (ticket : Ticket) (session : Session) : Session :=
  match session.caller with
  | .loading awaited .. => if awaited = ticket then session.later .caller else session
  | .commanding awaited _ => if awaited = ticket then session.later .reply else session
  | _ => session

/-- Pass a notice on to the part that waits for it. -/
def tell (session : Session) : Notice → Session
  | .taken ticket =>
    match session.store.outcome? ticket with
    | none => session
    | some event =>
      session.tellEngine ticket event |>.tellDispatcher ticket event |>.tellLane ticket .own
        |>.tellLane ticket .direct |>.tellCaller ticket
  | .delivered channel =>
    match session.engine with
    | .awaitingRequest awaited =>
      if awaited = channel then { session with engine := .serving channel }.later .engine
      else session
    | _ => session

def tellAll (session : Session) : Session :=
  session.store.notices.foldl tell
    (session.onStore fun store => { store with notices := [] })

/-- Change the store by something that may fail, and pass the notices on. -/
def attempt (change : StoreM Unit) (session : Session) : Session × Option Fault :=
  match change session.store with
  | .ok _ store => ({ session with store }.tellAll, none)
  | .error fault store => ({ session with store }.tellAll, some fault)

def put (event : Event) (session : Session) : Session × Option Fault :=
  session.attempt (Store.put event)

end Session

end TraceDebugger
