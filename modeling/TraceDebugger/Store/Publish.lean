/-
Publishing events.

An event is first noted, then taken in by the slices, then heard by the listeners in order and by
the tripwires, and last delivered to takers and channels.  What listeners and tripwires answer is
published inside, so that whoever receives an event finds it and all that it causes processed.  A
failure ends the publication; what was done before it stays.
-/
import TraceDebugger.Store.Basic

namespace TraceDebugger

/-- A change of the store that may fail half-way. -/
abbrev StoreM := EStateM Fault Store

namespace Store

def note (event : Event) (store : Store) : Store :=
  { store with published := event :: store.published }

/-- Deliver an event to those who wait for it, and to the channels for its kind. -/
def deliver (event : Event) (store : Store) : Store :=
  let served := store.takers.filter fun taker => taker.kinds.contains event.kind
  let receives := fun (channel : Channel) => channel.isOpen && channel.kinds.contains event.kind
  { store with
    takers := store.takers.filter fun taker => !taker.kinds.contains event.kind
    channels := store.channels.map fun channel =>
      if receives channel then { channel with buffer := channel.buffer ++ [event] } else channel
    outcomes := (served.map fun taker => (taker.ticket, event)).reverse ++ store.outcomes
    notices := store.notices ++ served.map (fun taker => Notice.taken taker.ticket)
      ++ (store.channels.filter receives).map (fun channel => Notice.delivered channel.ticket) }

def takeIn (event : Event) : StoreM Unit := fun store =>
  match store.bench.reduce event with
  | (bench, none) => .ok () { store with bench }
  | (bench, some fault) => .error fault { store with bench }

/-- A listener hears an event and answers. -/
def hear (event : Event) (listener : Listener) : StoreM (List Event) := fun store =>
  match store.bench.react event listener with
  | (bench, .ok events) => .ok events { store with bench }
  | (bench, .error fault) => .error fault { store with bench }

/-- The listeners in the order in which they hear an event of a kind. -/
def hearers (kind : EventKind) (store : Store) : List Listener :=
  store.listeners.flatMap fun listener => List.replicate (listener.hearings kind) listener

def setOff (wire : Tripwire) (event : Event) (store : Store) : Bool :=
  store.tripwires.any (fun armed => armed.ticket == wire.ticket)
    && wire.kind == event.kind
    && wire.cursor.all fun cursor => cursor == (store.bench.recording.cursor : Int)

def removeWire (ticket : Ticket) (store : Store) : Store :=
  { store with tripwires := store.tripwires.filter fun wire => wire.ticket != ticket }

def trip (event : Event) (wire : Tripwire) : StoreM (List Event) := fun store =>
  if store.setOff wire event then .ok [wire.event] (store.removeWire wire.ticket)
  else .ok [] store

/-- Publish an event that causes further ones at most `depth` deep. -/
def putWithin : Nat → Event → StoreM Unit
  | 0, _ => throw (.unfit .endless)
  | depth + 1, event => do
    modify (note event)
    takeIn event
    (hearers event.kind (← get)).forM fun listener => do
      (← hear event listener).forM (putWithin depth)
    (← get).tripwires.forM fun wire => do
      (← trip event wire).forM (putWithin depth)
    modify (deliver event)

/-- How deep publications may go whose listeners answer one event in one way and another event of
the same kind in another way. -/
@[irreducible] def nestingLimit : Nat := 1000

/-- How deep a publication may go.  If every listener answers all events alike, a chain of events,
each caused by the one before, in which a listener answers twice with no tripwire set off in
between, goes on for ever. -/
def depthLimit (store : Store) : Nat :=
  nestingLimit + (store.tripwires.length + 1) * (store.listeners.length + 1) + 1

def put (event : Event) : StoreM Unit := fun store =>
  putWithin store.depthLimit event store

/-- Process the step under the cursor and move past it, or announce the end of the trace.  How many
steps remain is read before the step is processed. -/
def advanceTrace : StoreM Unit := do
  let recording := (← get).bench.recording
  unless recording.loaded do throw .traceNotLoaded
  modify (log LogLevel.debug "trace"
    s!"remaining: {recording.remaining} of {recording.steps.length}")
  if 0 < recording.remaining then put .tick
  put (if 1 < recording.remaining then .tock else .endOfTrace)

end Store

end TraceDebugger
