/-
The store: the one place through which events pass.

Beside the workbench and the listeners it holds two kinds of receivers.  A taker waits for one event
of some kinds and is known by its ticket; a channel keeps all events of some kinds, in order, until
they are fetched.
-/
import TraceDebugger.Workbench.Listener

namespace TraceDebugger

/-- What a receiver is known by. -/
abbrev Ticket := Nat

/-- Waits for the next event of some kinds. -/
structure Taker where
  ticket : Ticket
  kinds : List EventKind
deriving DecidableEq, Repr, Inhabited

/-- Keeps the events of some kinds. -/
structure Channel where
  ticket : Ticket
  kinds : List EventKind
  /-- The events that have not been fetched, oldest first. -/
  buffer : List Event := []
  /-- The channel still receives. -/
  isOpen : Bool := true
deriving Inhabited

/-- Publishes an event once, when an event of a kind has passed all listeners, at a certain cursor
if one is given. -/
structure Tripwire where
  ticket : Ticket
  kind : EventKind
  cursor : Option Int := none
  event : Event
deriving Inhabited

inductive Notice where
  | taken (ticket : Ticket)
  | delivered (channel : Ticket)
deriving DecidableEq, Repr, Inhabited

structure Store where
  bench : Workbench := {}
  listeners : List Listener := []
  tripwires : List Tripwire := []
  takers : List Taker := []
  channels : List Channel := []
  /-- What takers have got, newest first. -/
  outcomes : List (Ticket × Event) := []
  /-- Who has received something, oldest first. -/
  notices : List Notice := []
  /-- What has been published, newest first. -/
  published : List Event := []
  nextTicket : Ticket := 0
deriving Inhabited

namespace Store

def take (kinds : List EventKind) (store : Store) : Ticket × Store :=
  (store.nextTicket,
    { store with
      takers := store.takers ++ [⟨store.nextTicket, kinds⟩]
      nextTicket := store.nextTicket + 1 })

def cancel (ticket : Ticket) (store : Store) : Store :=
  { store with takers := store.takers.filter fun taker => taker.ticket != ticket }

/-- What a taker has got. -/
def outcome? (ticket : Ticket) (store : Store) : Option Event :=
  SyntaxTree.valueOf? ticket store.outcomes

def isWaiting (ticket : Ticket) (store : Store) : Bool :=
  store.takers.any fun taker => taker.ticket == ticket

/-- Keep the later events of some kinds. -/
def subscribe (kinds : List EventKind) (store : Store) : Ticket × Store :=
  (store.nextTicket,
    { store with
      channels := store.channels ++ [{ ticket := store.nextTicket, kinds }]
      nextTicket := store.nextTicket + 1 })

def onChannel (ticket : Ticket) (change : Channel → Channel) (store : Store) : Store :=
  { store with
    channels := store.channels.map fun channel =>
      if channel.ticket = ticket then change channel else channel }

/-- Receive no more events; those that were received stay. -/
def unsubscribe (ticket : Ticket) (store : Store) : Store :=
  store.onChannel ticket fun channel => { channel with isOpen := false }

def waitingIn (ticket : Ticket) (store : Store) : List Event :=
  ((store.channels.find? fun channel => channel.ticket == ticket).map (·.buffer)).getD []

def fetch (ticket : Ticket) (store : Store) : Except Fault (Event × Store) :=
  match store.waitingIn ticket with
  | [] => .error (.unfit .emptyQueue)
  | event :: rest =>
    .ok (event, store.onChannel ticket fun channel => { channel with buffer := rest })

def listen (listener : Listener) (store : Store) : Store :=
  { store with listeners := store.listeners ++ [listener] }

def arm (kind : EventKind) (cursor : Option Int) (event : Event) (store : Store) : Store :=
  { store with
    tripwires := store.tripwires ++ [{ ticket := store.nextTicket, kind, cursor, event }]
    nextTicket := store.nextTicket + 1 }

def disarm (store : Store) : Store := { store with tripwires := [] }

def onBench (change : Workbench → Workbench) (store : Store) : Store :=
  { store with bench := change store.bench }

def log (level : Int) (component message : String) (store : Store) : Store :=
  store.onBench fun bench => bench.log level component message

end Store

end TraceDebugger
