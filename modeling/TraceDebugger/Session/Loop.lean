/-
The turns of a session.

A command's cycle announces the command, lets its pursuit race against an interrupt, and announces
the end.  The race is noticed one turn after it is decided, so that a pursuit may still finish in
between; one that has not finished is dropped in a turn of its own.  A part that finds what it needs
already there goes on at once.
-/
import TraceDebugger.Session.Basic

namespace TraceDebugger.Session

/-! ### Cycles -/

def awaitCommand (session : Session) : Session :=
  let session := session.log LogLevel.debug "controller" "waiting for control action"
  let (ticket, session) := session.take EventKind.commands
  { session with dispatcher := .awaitingCommand ticket }

/-- The dispatcher ends by a fault; a caller that waits for it learns of that. -/
def crash (fault : Fault) (session : Session) : Session :=
  let session := { session with dispatcher := .crashed fault }
  match session.caller with
  | .commanding .. => session.later .reply
  | _ => session

/-- A cycle is over: interrupted or not, or by a fault. -/
def leaveLane (result : Except Fault Bool) (session : Session) : Lane → Session
  | .own => match result with
    | .ok _ => session.awaitCommand
    | .error fault => session.crash fault
  | .direct => { session with caller := .answered (result.map .flag) }

def beginCycle (lane : Lane) (command : Command) (event : Event) (session : Session) : Session :=
  match session.put (.beginStep command) with
  | (session, some fault) => session.leaveLane (.error fault) lane
  | (session, none) =>
    let session := session.onStore fun store =>
      store.onBench fun bench => { bench with active := some command }
    let (interrupt, session) := session.take [.interrupt]
    (session.setCycle lane (some { command, event, interrupt })).later (.run lane)

def endCycle (lane : Lane) (cycle : Cycle) (interrupted : Bool) (fault : Option Fault)
    (session : Session) : Session :=
  let session := session.setCycle lane none |>.onStore fun store =>
    (store.cancel cycle.interrupt).onBench fun bench => { bench with active := none }
  let session := if interrupted then
      session.log LogLevel.info "controller"
        s!"{cycle.command.name} interrupted at step {session.bench.recording.cursor}"
    else session
  match session.put (.endStep cycle.command interrupted), fault with
  | (session, some putFault), _ => session.leaveLane (.error putFault) lane
  | (session, none), some fault => session.leaveLane (.error fault) lane
  | (session, none), none => session.leaveLane (.ok interrupted) lane

/-- The cycle in a lane finds its race decided, or its pursuit dropped. -/
def resumeCycle (lane : Lane) (session : Session) : Session :=
  match session.cycle? lane with
  | none => session
  | some cycle =>
    match cycle.run with
    | .finished fault => session.endCycle lane cycle false fault
    | .cancelled => session.endCycle lane cycle true none
    | .queued _ => session.onCycle lane fun cycle => { cycle with stopping := true }
    | .waiting ticket pursuit =>
      (session.onStore (Store.cancel ticket)).onCycle lane
          (fun cycle => { cycle with stopping := true, run := .queued (some pursuit) })
        |>.later (.run lane)

/-- The race in a lane is decided, unless it was before. -/
def settleRace (lane : Lane) (session : Session) : Session :=
  match session.cycle? lane with
  | none => session
  | some cycle =>
    if cycle.settled then session
    else (session.onCycle lane fun cycle => { cycle with settled := true }).later (.cycle lane)

/-! ### Pursuits -/

def finishRun (lane : Lane) (fault : Option Fault) (session : Session) : Session :=
  (session.setRun lane (.finished fault)).later (.race lane)

/-- The pursuit in a lane asks for one more step and waits for its end. -/
def requestStep (lane : Lane) (pursuit : Pursuit) (session : Session) : Session :=
  if session.bench.recording.loaded then
    let (ticket, session) := session.take [.tock, .endOfTrace]
    match session.put .next with
    | (session, some fault) => session.finishRun lane (some fault)
    | (session, none) =>
      if (session.store.outcome? ticket).isSome then
        (session.setRun lane (.queued (some pursuit))).atOnce (.run lane)
      else session.setRun lane (.waiting ticket pursuit)
  else session.finishRun lane (some .traceNotLoaded)

def resumeRun (lane : Lane) (session : Session) : Session :=
  match session.cycle? lane with
  | none => session
  | some cycle =>
    if cycle.stopping then (session.setRun lane .cancelled).later (.cycle lane)
    else match cycle.run with
      | .queued none =>
        match session.bench.begin cycle.event cycle.command with
        | .ok pursuit => session.requestStep lane pursuit
        | .error fault => session.finishRun lane (some fault)
      | .queued (some pursuit) =>
        match session.bench.proceed pursuit with
        | .ok (some more) => session.requestStep lane more
        | .ok none =>
          (session.onStore fun store => store.onBench fun bench => bench.reportHit pursuit)
            |>.finishRun lane none
        | .error fault => session.finishRun lane (some fault)
      | _ => session

/-! ### The engine -/

/-- The engine ends by a fault and receives no more requests. -/
def halt (channel : Ticket) (fault : Fault) (session : Session) : Session :=
  { session.onStore (Store.unsubscribe channel) with engine := .halted fault }

/-- The engine waits for a request; it goes on at once if there is one. -/
def awaitRequest (channel : Ticket) (session : Session) : Session :=
  if (session.store.waitingIn channel).isEmpty then
    { session with engine := .awaitingRequest channel }
  else { session with engine := .serving channel }.atOnce .engine

/-- The engine receives a trace: it begins to listen to requests and publishes the call targets. -/
def receiveTrace (event : Event) (session : Session) : Session :=
  let (channel, store) := session.store.subscribe [.next]
  let session := { session with store }
  let steps := event.payload.steps.getD []
  match callTargets session.bench.checksum steps with
  | .error fault => { session with engine := .halted fault }
  | .ok addresses =>
    let session := session.log LogLevel.debug "trace"
      s!"trace saved: {steps.length} steps, {addresses.length} call targets"
    match session.put (.receiveAddresses addresses) with
    | (session, none) => session.awaitRequest channel
    | (session, some fault) => { session with engine := .halted fault }

def serve (session : Session) : Session :=
  match session.engine with
  | .serving channel =>
    match session.store.fetch channel with
    | .error fault => session.halt channel fault
    | .ok (_, store) =>
      match { session with store }.attempt Store.advanceTrace with
      | (session, none) => session.awaitRequest channel
      | (session, some fault) => session.halt channel fault
  | _ => session

/-! ### The caller -/

def answer (result : Except Fault Reply) (session : Session) : Session :=
  { session with caller := .answered result }

def finishCommand (ticket : Ticket) (session : Session) : Session :=
  let session := { session with running := none }
  match session.dispatcher, session.store.outcome? ticket with
  | .crashed fault, _ => session.answer (.error fault)
  | _, some event =>
    session.answer ((Event.need "interrupted" event.payload.interrupted).map fun interrupted =>
      .flag !interrupted)
  | _, none => (session.onStore (Store.cancel ticket)).answer (.ok (.flag false))

/-- The frame in which a trace starts: a call, or a deployment, or none. -/
def firstFrame (address binary : Option String) : Option Event :=
  match address.filter (· != ""), binary.filter (· != "") with
  | some address, _ => some (.call (some address))
  | none, some binary => some (.create (some binary))
  | none, none => none

/-- The caller enters the first frame of its trace and learns the call targets. -/
def finishLoad (address binary : Option String) (event : Event) (session : Session) : Session :=
  let (session, fault) := match firstFrame address binary with
    | some frame => session.put frame
    | none => (session, none)
  match fault, Event.need "addresses" event.payload.addresses with
  | some fault, _ => session.answer (.error fault)
  | none, .error fault => session.answer (.error fault)
  | none, .ok addresses =>
    session.log LogLevel.info "session"
        s!"loaded {session.bench.recording.steps.length} steps, {addresses.length} call target(s)"
      |>.answer (.ok (.targets addresses))

def resumeCaller (session : Session) : Session :=
  match session.caller with
  | .commanding ticket _ => session.finishCommand ticket
  | .loading ticket address binary =>
    match session.store.outcome? ticket with
    | some event => session.finishLoad address binary event
    | none => session
  | _ => session

/-- The caller's wait for its command is decided, unless it was before. -/
def settleReply (session : Session) : Session :=
  match session.caller with
  | .commanding ticket false =>
    { session with caller := .commanding ticket true }.later .caller
  | _ => session

/-! ### Turns -/

def takeTurn (session : Session) : Turn → Session
  | .trace event => session.receiveTrace event
  | .engine => session.serve
  | .command event =>
    let session := session.log LogLevel.debug "controller"
      ("got control action " ++ event.kind.name)
    match event.kind.command? with
    | some command => session.beginCycle .own command event
    | none => session.crash (.unknownCommand event.kind.name)
  | .run lane => session.resumeRun lane
  | .race lane => session.settleRace lane
  | .cycle lane => session.resumeCycle lane
  | .reply => session.settleReply
  | .caller => session.resumeCaller

/-- The first turn in the queue is taken; none if nothing can move. -/
def step? (session : Session) : Option Session :=
  match session.turns with
  | [] => none
  | turn :: rest => some ({ session with turns := rest }.takeTurn turn)

/-- At most so many turns are taken, until nothing can move. -/
def runFor : Nat → Session → Session
  | 0, session => session
  | turns + 1, session =>
    match session.step? with
    | some next => runFor turns next
    | none => session

/-- The steps of the traces that may yet be processed. -/
def stepsAhead (session : Session) : Nat :=
  session.store.tripwires.foldr
    (fun wire count => (wire.event.payload.steps.getD []).length + count)
    session.bench.recording.steps.length

/-- More turns than the session can take: every command that is given, at the start or by a
tripwire, advances at most once for every step ahead and once at the end of each trace. -/
def turnLimit (session : Session) : Nat :=
  let causes := session.store.tripwires.length + session.turns.length + 3
  16 * causes * (session.stepsAhead + causes)

def settle (session : Session) : Session := session.runFor session.turnLimit

end TraceDebugger.Session
