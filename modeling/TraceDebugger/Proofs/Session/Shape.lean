/-
The shapes of a session after its trace is loaded.

Whatever happens, the engine has one channel of requests, and the store differs from one moment to
the next only in its workbench, in who waits and in what has been published: a `Base` keeps these.

* `put_silent` — an event that nobody waits for is published and nothing moves;
* `put_taken` — an event that one taker waits for is published and taken;
* `put_next` — a request reaches the engine, unless it has halted.
-/
import TraceDebugger.Proofs.Advance.Course
import TraceDebugger.Proofs.Advance.Publication

namespace TraceDebugger

/-! ### Bases -/

/-- What the engine is about. -/
inductive Service where
  /-- It waits for a request. -/
  | idle
  /-- It has a request to serve. -/
  | busy
  /-- It has halted. -/
  | halted (fault : Fault)

/-- What a session has, apart from the command under way. -/
structure Base where
  bench : Workbench
  outcomes : List (Ticket × Event)
  published : List Event
  nextTicket : Ticket
  channel : Ticket
  service : Service

namespace Service

/-- The requests that wait in the channel of the engine. -/
def buffer : Service → List Event
  | busy => [.next]
  | _ => []

/-- The channel of the engine receives. -/
def isOpen : Service → Bool
  | halted _ => false
  | _ => true

/-- The state of the engine. -/
def engine (channel : Ticket) : Service → EngineStatus
  | idle => .awaitingRequest channel
  | busy => .serving channel
  | halted fault => .halted fault

theorem idle_ne_busy : idle ≠ busy := nofun

theorem halted_ne_busy (fault : Fault) : halted fault ≠ busy := nofun

end Service

namespace Base

variable {base : Base} {takers : List Taker} {event : Event}

/-- The store of a session with some takers. -/
def store (base : Base) (takers : List Taker) : Store :=
  { bench := base.bench
    listeners := Session.listeners
    takers
    channels := [{ ticket := base.channel, kinds := [.next], buffer := base.service.buffer,
                   isOpen := base.service.isOpen }]
    outcomes := base.outcomes
    published := base.published
    nextTicket := base.nextTicket }

/-- That store when somebody has just received something. -/
def storeTelling (base : Base) (takers : List Taker) (notice : Notice) : Store :=
  { base.store takers with notices := [notice] }

/-- The base after some events have been published, with another workbench. -/
def publish (base : Base) (bench : Workbench) (events : List Event) : Base :=
  { base with bench, published := events.reverse ++ base.published }

def on (base : Base) (bench : Workbench) : Base := { base with bench }

def ticketed (base : Base) : Base := { base with nextTicket := base.nextTicket + 1 }

def took (base : Base) (ticket : Ticket) (event : Event) : Base :=
  { base with outcomes := (ticket, event) :: base.outcomes }

def serves (base : Base) (service : Service) : Base := { base with service }

/-- The base after the engine has been asked for a step. -/
def asked (base : Base) : Base := (base.publish base.bench [.next]).ticketed.serves .busy

/-- The base after the engine has processed a step by some events. -/
def stepped (base : Base) (lines : List LogLine) (events : List Event) : Base :=
  (base.publish ((base.bench.past events).logged lines) events).serves .idle

/-- The base after the engine has halted in a step that it has processed in part. -/
def stalled (base : Base) (lines : List LogLine) (events : List Event) (fault : Fault) : Base :=
  (base.publish ((base.bench.hold.takeAll events).logged lines) (.tick :: events)).serves
    (.halted fault)

/-- The invariant of a base. -/
structure Sound (base : Base) : Prop where
  loaded : base.bench.recording.loaded = true
  order : base.bench.order = Session.slices
  /-- A frame is held only for good. -/
  held : base.service.isOpen = true → base.bench.held = none
  /-- Who has got something has been given a ticket. -/
  fresh : ∀ outcome ∈ base.outcomes, outcome.1 < base.nextTicket

theorem Sound.poised (h : base.Sound) (ho : base.service.isOpen = true) : base.bench.Poised :=
  ⟨h.loaded, h.order, h.held ho⟩

theorem isOpen_of_idle (hi : base.service = .idle) : base.service.isOpen = true := by
  rw [hi]
  rfl

theorem isOpen_of_busy (hb : base.service = .busy) : base.service.isOpen = true := by
  rw [hb]
  rfl

theorem isOpen_of_halted {fault : Fault} (ho : base.service = .halted fault) :
    base.service.isOpen = false := by
  rw [ho]
  rfl

theorem engine_of_busy (hb : base.service = .busy) (channel : Ticket) :
    base.service.engine channel = .serving channel := by
  rw [hb]
  rfl

theorem engine_of_halted {fault : Fault} (ho : base.service = .halted fault) (channel : Ticket) :
    base.service.engine channel = .halted fault := by
  rw [ho]
  rfl

theorem Sound.wired (h : base.Sound) (takers : List Taker) : (base.store takers).Wired :=
  ⟨rfl, h.order, rfl⟩

theorem Sound.ticketed (h : base.Sound) : base.ticketed.Sound :=
  ⟨h.loaded, h.order, h.held, fun outcome ho => Nat.lt_succ_of_lt (h.fresh outcome ho)⟩

theorem Sound.took (h : base.Sound) {ticket : Ticket} (ht : ticket < base.nextTicket)
    (event : Event) : (base.took ticket event).Sound := by
  refine ⟨h.loaded, h.order, h.held, ?_⟩
  intro outcome ho
  rcases List.mem_cons.mp ho with rfl | ho
  · exact ht
  · exact h.fresh outcome ho

theorem Sound.publish (h : base.Sound) {bench : Workbench} (hl : bench.recording.loaded = true)
    (ho : bench.order = base.bench.order) (hh : base.service.isOpen = true → bench.held = none)
    (events : List Event) : (base.publish bench events).Sound :=
  ⟨hl, ho.trans h.order, hh, h.fresh⟩

theorem Sound.serves (h : base.Sound) (service : Service)
    (ho : service.isOpen = true → base.service.isOpen = true) : (base.serves service).Sound :=
  ⟨h.loaded, h.order, fun hopen => h.held (ho hopen), h.fresh⟩

theorem Sound.fetched (h : base.Sound) (hb : base.service = .busy) : (base.serves .idle).Sound :=
  h.serves .idle fun _ => isOpen_of_busy hb

theorem Sound.logged (h : base.Sound) (lines : List LogLine) :
    (base.on (base.bench.logged lines)).Sound := ⟨h.loaded, h.order, h.held, h.fresh⟩

theorem Sound.note (h : base.Sound) (events : List Event) :
    (base.publish base.bench events).Sound := ⟨h.loaded, h.order, h.held, h.fresh⟩

theorem Sound.asked (h : base.Sound) (hi : base.service = .idle) : base.asked.Sound :=
  (h.note [.next]).ticketed.serves .busy fun _ => isOpen_of_idle hi

theorem Sound.stepped (h : base.Sound) (ho : base.service.isOpen = true) {events : List Event}
    (hp : base.bench.passage = .ok events) (lines : List LogLine) :
    (base.stepped lines events).Sound := by
  have hpoised := (h.poised ho).past hp
  exact ⟨hpoised.loaded, h.order, fun _ => rfl, h.fresh⟩

theorem Sound.stalled (h : base.Sound) {events : List Event} (hd : ∀ event ∈ events, event.Derived)
    (lines : List LogLine) (fault : Fault) : (base.stalled lines events fault).Sound := by
  -- a step that is processed in part has published derived events only, which no trace is
  have hrecording := Slices.recording_after_derived hd base.bench.slices
  refine ⟨?_, h.order, fun hopen => absurd hopen Bool.false_ne_true, h.fresh⟩
  show (base.bench.slices.after events).recording.loaded = true
  rw [hrecording]
  exact h.loaded

/-- Who has no ticket yet has got nothing. -/
theorem Sound.outcome?_eq_none (h : base.Sound) (takers : List Taker) {ticket : Ticket}
    (ht : base.nextTicket ≤ ticket) : (base.store takers).outcome? ticket = none := by
  rw [Store.outcome?, SyntaxTree.valueOf?, Option.map_eq_none_iff, List.find?_eq_none]
  intro outcome ho
  rw [decide_eq_true_iff]
  exact Nat.ne_of_lt (Nat.lt_of_lt_of_le (h.fresh outcome ho) ht)

theorem outcome?_took (base : Base) (takers : List Taker) (ticket : Ticket) (event : Event) :
    ((base.took ticket event).store takers).outcome? ticket = some event := by
  simp [Store.outcome?, SyntaxTree.valueOf?, took, store]

/-- Somebody else's outcome is not one's own. -/
theorem outcome?_took_of_ne (base : Base) (takers : List Taker) {ticket other : Ticket}
    (hne : other ≠ ticket) (event : Event) :
    ((base.took other event).store takers).outcome? ticket
      = (base.store takers).outcome? ticket := by
  simp [Store.outcome?, SyntaxTree.valueOf?, took, store, hne]

/-! ### Delivery -/

theorem awaits_store_iff (base : Base) (takers : List Taker) (kind : EventKind) :
    (base.store takers).Awaits kind ↔ (∃ taker ∈ takers, kind ∈ taker.kinds) ∨
      base.service.isOpen = true ∧ kind = .next := by
  simp [Store.Awaits, store]

theorem deliver_taken {before after : List Taker} {taker : Taker} (hk : event.kind ∈ taker.kinds)
    (hb : ∀ other ∈ before ++ after, event.kind ∉ other.kinds) (hn : event.kind ≠ .next) :
    (base.store (before ++ taker :: after)).deliver event
      = (base.took taker.ticket event).storeTelling (before ++ after) (.taken taker.ticket) := by
  -- only the one taker waits for the event; those before it and after it are left as they are
  have hserved (l : List Taker) (hl : ∀ other ∈ l, other ∈ before ++ after) :
      l.filter (fun other => decide (event.kind ∈ other.kinds)) = [] :=
    List.filter_eq_nil_iff.mpr fun other ho => by simpa using hb other (hl other ho)
  have hleft (l : List Taker) (hl : ∀ other ∈ l, other ∈ before ++ after) :
      l.filter (fun other => !decide (event.kind ∈ other.kinds)) = l :=
    List.filter_eq_self.mpr fun other ho => by simpa using hb other (hl other ho)
  have hbefore : ∀ other ∈ before, other ∈ before ++ after := fun _ => List.mem_append_left _
  have hafter : ∀ other ∈ after, other ∈ before ++ after := fun _ => List.mem_append_right _
  simp [Store.deliver, storeTelling, store, took, hk, hn, hserved _ hbefore,
    hserved _ hafter, hleft _ hbefore, hleft _ hafter]

/-- A request waits in the channel of an engine that has not halted. -/
theorem deliver_next (hn : ∀ taker ∈ takers, EventKind.next ∉ taker.kinds)
    (hs : base.service = .idle) :
    (base.store takers).deliver .next
      = (base.serves .busy).storeTelling takers (.delivered base.channel) := by
  have hserved : takers.filter (fun taker => decide (EventKind.next ∈ taker.kinds)) = [] :=
    List.filter_eq_nil_iff.mpr fun taker ht => by simpa using hn taker ht
  have hleft : takers.filter (fun taker => !decide (EventKind.next ∈ taker.kinds)) = takers :=
    List.filter_eq_self.mpr fun taker ht => by simpa using hn taker ht
  simp [Store.deliver, storeTelling, store, serves, Event.next, hserved, hleft, hs, Service.isOpen,
    Service.buffer]

end Base

/-! ### Publications of a session -/

namespace Session

variable {session : Session} {base : Base} {takers : List Taker} {event : Event}

/-- The session with another store. -/
def withStore (session : Session) (store : Store) : Session := { session with store }

theorem attempt_ok {change : StoreM Unit} {store : Store}
    (h : change.run session.store = .ok () store) :
    session.attempt change = ((session.withStore store).tellAll, none) := by
  rw [attempt, show change session.store = _ from h]
  rfl

theorem attempt_error {change : StoreM Unit} {store : Store} {fault : Fault}
    (h : change.run session.store = .error fault store) :
    session.attempt change = ((session.withStore store).tellAll, some fault) := by
  rw [attempt, show change session.store = _ from h]
  rfl

/-- Nobody is told anything when there is nothing to tell. -/
theorem tellAll_store (session : Session) (base : Base) (takers : List Taker) :
    (session.withStore (base.store takers)).tellAll = session.withStore (base.store takers) := rfl

theorem tellAll_notice (session : Session) (base : Base) (takers : List Taker) (notice : Notice) :
    (session.withStore (base.storeTelling takers notice)).tellAll
      = (session.withStore (base.store takers)).tell notice := rfl

/-- The kinds of the events with which the parts of a session tell each other how far they are. -/
def signals : List EventKind := [.beginStep, .endStep, .interrupt, .next]

/-- A signal means nothing to the slices, and no listener hears it. -/
theorem signal_spec (hk : event.kind ∈ signals) (base : Base) (takers : List Taker) :
    base.bench.slices.reduce event Session.slices = (base.bench.slices, none) ∧
      (base.store takers).hearers event.kind = [] := by
  obtain ⟨kind, payload⟩ := event
  rcases List.mem_cons.mp hk with rfl | hk
  · exact ⟨rfl, rfl⟩
  rcases List.mem_cons.mp hk with rfl | hk
  · exact ⟨rfl, rfl⟩
  rcases List.mem_cons.mp hk with rfl | hk
  · exact ⟨rfl, rfl⟩
  obtain rfl := List.mem_singleton.mp hk
  exact ⟨rfl, rfl⟩

theorem put_signal (hs : session.store = base.store takers) (ho : base.bench.order = Session.slices)
    (hk : event.kind ∈ signals) :
    session.put event
      = ((session.withStore
          (((base.publish base.bench [event]).store takers).deliver event)).tellAll, none) := by
  have hw : session.store.Wired := by rw [hs]; exact ⟨rfl, ho, rfl⟩
  obtain ⟨hreduce, hhearers⟩ := signal_spec hk base takers
  rw [← show session.store.bench = base.bench by rw [hs]; rfl] at hreduce
  rw [← hs] at hhearers
  have hput := Store.put_unheard hw hreduce hhearers
  rw [put, attempt_ok hput, hs]
  rfl

/-- A signal that nobody waits for is published, and nothing moves. -/
theorem put_silent (hs : session.store = base.store takers) (ho : base.bench.order = Session.slices)
    (hk : event.kind ∈ signals) (ha : ¬ (base.store takers).Awaits event.kind) :
    session.put event
      = (session.withStore ((base.publish base.bench [event]).store takers), none) := by
  have ha' : ¬ ((base.publish base.bench [event]).store takers).Awaits event.kind := ha
  rw [put_signal hs ho hk, Store.deliver_of_not_awaits ha', tellAll_store]

/-- A signal that one taker waits for is published and taken. -/
theorem put_taken {before after : List Taker} {taker : Taker}
    (hs : session.store = base.store (before ++ taker :: after))
    (ho : base.bench.order = Session.slices) (hk : event.kind ∈ signals)
    (ht : event.kind ∈ taker.kinds) (hb : ∀ other ∈ before ++ after, event.kind ∉ other.kinds)
    (hn : event.kind ≠ .next) :
    session.put event
      = ((session.withStore (((base.publish base.bench [event]).took taker.ticket event).store
          (before ++ after))).tell (.taken taker.ticket), none) := by
  rw [put_signal hs ho hk, Base.deliver_taken ht hb hn, tellAll_notice]

/-- A request reaches the engine. -/
theorem put_next (hs : session.store = base.store takers) (ho : base.bench.order = Session.slices)
    (hn : ∀ taker ∈ takers, EventKind.next ∉ taker.kinds) (hi : base.service = .idle) :
    session.put .next
      = ((session.withStore (((base.publish base.bench [.next]).serves .busy).store takers)).tell
          (.delivered base.channel), none) := by
  have hk : Event.next.kind ∈ signals := by decide
  have hi' : (base.publish base.bench [.next]).service = .idle := hi
  rw [put_signal hs ho hk, Base.deliver_next hn hi', tellAll_notice]
  rfl

end Session

end TraceDebugger
