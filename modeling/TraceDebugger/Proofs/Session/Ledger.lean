/-
The books of a session: who has which command.

Commands reach the dispatcher from a caller, from outside and from listeners, at any moment, and the
dispatcher takes one at a time.  A ledger keeps what matters of that: what the dispatcher is about,
how far the call of the caller is, and the beginnings and ends of cycles that were published.

* `Ledger`, `Ledger.Moves` — the books, and the entries that can be made;
* `Keeps` — a session as its ledger has it;
* `Keeps.deliver`, `Keeps.tell` — an event that is delivered, and whoever is told of it;
* `Keeps.attempt` — whatever a change of the store publishes, the dispatcher takes one command at
  most.
-/
import TraceDebugger.Proofs.Session.Tripwires

namespace TraceDebugger

/-! ### Ledgers -/

/-- The kinds of the events with which cycles begin and end. -/
def EventKind.bounds : List EventKind := [.beginStep, .endStep]

/-- The beginnings and the ends of cycles among some events. -/
def bounds (events : List Event) : List Event :=
  events.filter fun event => event.kind ∈ EventKind.bounds

/-- An event that neither begins a cycle nor ends one. -/
def Event.Unbound (event : Event) : Prop := event.kind ∉ EventKind.bounds

theorem Event.Unbound.kind_ne_endStep {event : Event} (h : event.Unbound) :
    event.kind ≠ .endStep := fun hk => h (hk ▸ List.mem_cons_of_mem _ List.mem_cons_self)

theorem bounds_cons_of_bound {event : Event} (h : event.kind ∈ EventKind.bounds)
    (events : List Event) : bounds (event :: events) = event :: bounds events :=
  List.filter_cons_of_pos (by simpa using h)

theorem bounds_cons_of_not {event : Event} (h : event.Unbound)
    (events : List Event) : bounds (event :: events) = bounds events :=
  List.filter_cons_of_neg (by simpa [Event.Unbound] using h)

/-- What the dispatcher is about. -/
inductive Desk where
  /-- It waits for a command. -/
  | free
  /-- It has taken a command and has yet to begin it. -/
  | holding (event : Event)
  /-- It begins a cycle or ends one. -/
  | busy
  /-- It runs a cycle. -/
  | running (command : Command)
  | crashed (fault : Fault)

namespace Desk

/-- The command that runs. -/
def running? : Desk → Option Command
  | running command => some command
  | _ => none

/-- The dispatcher has not crashed. -/
def Alive (desk : Desk) : Prop := ∀ fault, desk ≠ .crashed fault

theorem alive_busy : Alive .busy := by simp [Alive]

theorem alive_holding (event : Event) : Alive (.holding event) := by simp [Alive]

theorem alive_running (command : Command) : Alive (.running command) := by simp [Alive]

theorem alive_or_crashed (desk : Desk) : desk.Alive ∨ ∃ fault, desk = .crashed fault := by
  cases desk with
  | crashed fault => exact .inr ⟨fault, rfl⟩
  | _ => exact .inl (by simp [Alive])

theorem eq_running {desk : Desk} {command : Command} (h : desk.running? = some command) :
    desk = .running command := by
  cases desk with
  | running command' => exact congrArg running (Option.some.inj h)
  | _ => cases h

end Desk

/-- How far the call of a caller is. -/
inductive Call where
  | nobody
  /-- It is being given, by somebody with a ticket. -/
  | issuing (reply : Ticket)
  | waiting
  /-- The end that it waited for has been delivered. -/
  | ended (command : Command) (interrupted : Bool)
  | answered (result : Except Fault Reply)

/-- A call learns of the end of a cycle. -/
def Call.hear (command : Command) (interrupted : Bool) : Call → Call
  | waiting => ended command interrupted
  | call => call

/-- The books of a session. -/
structure Ledger where
  desk : Desk
  call : Call
  /-- The beginnings and the ends of cycles that were published, newest first. -/
  bounds : List Event

namespace Ledger

/-- An entry in the books. -/
inductive Moves : Ledger → Ledger → Prop
  /-- The dispatcher takes a command. -/
  | takes {call bounds event command} (hk : Event.kind event = .command command) :
      Moves ⟨.free, call, bounds⟩ ⟨.holding event, call, bounds⟩
  /-- The cycle of the command begins. -/
  | begins {call bounds event command} (hk : Event.kind event = .command command) :
      Moves ⟨.holding event, call, bounds⟩ ⟨.running command, call, .beginStep command :: bounds⟩
  /-- The beginning could not be published. -/
  | fails {call bounds event command fault} (hk : Event.kind event = .command command) :
      Moves ⟨.holding event, call, bounds⟩ ⟨.crashed fault, call, .beginStep command :: bounds⟩
  /-- The cycle ends, and whoever waits for that learns of it. -/
  | ends {call bounds command} (interrupted : Bool) :
      Moves ⟨.running command, call, bounds⟩
        ⟨.free, call.hear command interrupted, .endStep command interrupted :: bounds⟩
  /-- It ends by a fault. -/
  | breaks {call call' bounds command fault} (interrupted : Bool)
      (hc : call' = call ∨ call' = call.hear command interrupted) :
      Moves ⟨.running command, call, bounds⟩
        ⟨.crashed fault, call', .endStep command interrupted :: bounds⟩
  /-- The caller gets its answer. -/
  | answers {desk bounds command interrupted} (ha : Desk.Alive desk) :
      Moves ⟨desk, .ended command interrupted, bounds⟩
        ⟨desk, .answered (.ok (.flag !interrupted)), bounds⟩
  /-- It learns that the dispatcher has crashed. -/
  | gives {call bounds fault} (hc : ∀ result, call ≠ .answered result) :
      Moves ⟨.crashed fault, call, bounds⟩ ⟨.crashed fault, .answered (.error fault), bounds⟩

/-- At most, the dispatcher takes a command that is fit. -/
def Hears (fit : Event → Prop) (ledger next : Ledger) : Prop :=
  next = ledger ∨ ∃ event command, ledger.desk = .free ∧ fit event ∧
    event.kind = .command command ∧ next = { ledger with desk := .holding event }

theorem Hears.trans {fit : Event → Prop} {ledger middle next : Ledger}
    (h : ledger.Hears fit middle) (h' : middle.Hears fit next) : ledger.Hears fit next := by
  obtain rfl | ⟨event, command, hfree, hfit, hk, rfl⟩ := h
  · exact h'
  · obtain rfl | ⟨_, _, hfree', -⟩ := h'
    · exact .inr ⟨event, command, hfree, hfit, hk, rfl⟩
    · cases hfree'

theorem Hears.mono {fit fit' : Event → Prop} {ledger next : Ledger} (h : ledger.Hears fit next)
    (hf : ∀ event, fit event → fit' event) : ledger.Hears fit' next := by
  obtain rfl | ⟨event, command, hfree, hfit, hk, rfl⟩ := h
  · exact .inl rfl
  · exact .inr ⟨event, command, hfree, hf event hfit, hk, rfl⟩

end Ledger

/-! ### Sessions and their ledgers -/

/-- The commands that were taken and wait for a turn. -/
def commandsOf (turns : List Turn) : List Event :=
  turns.filterMap fun
    | .command event => some event
    | _ => none

/-- The turns in which a caller learns something. -/
def repliesOf (turns : List Turn) : List Turn :=
  turns.filter fun
    | .reply | .caller => true
    | _ => false

theorem commandsOf_append (turns more : List Turn) :
    commandsOf (turns ++ more) = commandsOf turns ++ commandsOf more := List.filterMap_append ..

theorem repliesOf_append (turns more : List Turn) :
    repliesOf (turns ++ more) = repliesOf turns ++ repliesOf more := List.filter_append ..

/-- The tickets of a cycle. -/
def Cycle.tickets (cycle : Cycle) : List Ticket :=
  cycle.interrupt :: match cycle.run with
    | .waiting ticket _ => [ticket]
    | _ => []

namespace Session

variable {session next : Session} {pending : List Notice} {ledger : Ledger} {desk : Desk}
  {call : Call}

/-- What the dispatcher of a session is about. -/
inductive Tends (session : Session) : Desk → Prop
  | free {ticket} (hd : session.dispatcher = .awaitingCommand ticket)
      (hw : session.store.Waits ticket EventKind.commands)
      (ht : commandsOf session.turns = []) : Tends session .free
  /-- It has got a command and is to be told. -/
  | told {ticket event command} (hd : session.dispatcher = .awaitingCommand ticket)
      (hg : session.store.Got ticket event) (hk : Event.kind event = .command command)
      (hn : .taken ticket ∈ session.store.notices)
      (ht : commandsOf session.turns = []) : Tends session (.holding event)
  | holding {event command} (hd : session.dispatcher = .working)
      (hk : Event.kind event = .command command)
      (ht : commandsOf session.turns = [event]) : Tends session (.holding event)
  | busy (hd : session.dispatcher = .working) (ht : commandsOf session.turns = []) :
      Tends session .busy
  | running {command} (hd : session.dispatcher = .working) (ht : commandsOf session.turns = []) :
      Tends session (.running command)
  | crashed {fault} (hd : session.dispatcher = .crashed fault)
      (ht : commandsOf session.turns = []) : Tends session (.crashed fault)

/-- The turns in which a caller learns that its command is over. -/
def Due (session : Session) (reply : Ticket) : Bool → Prop
  | false => ∀ turn ∈ repliesOf session.turns, turn = .reply
  | true => .taken reply ∉ session.store.notices ∧
      ∃ replies, (∀ turn ∈ replies, turn = Turn.reply) ∧
        repliesOf session.turns = replies ++ [.caller]

/-- How far the call of the caller of a session is.  Nothing is said of the turns in which a caller
learns that the dispatcher has crashed. -/
inductive Calls (session : Session) (desk : Desk) : Call → Prop
  | nobody (hc : session.caller = .idle) (hr : session.running = none)
      (ht : desk.Alive → repliesOf session.turns = []) : Calls session desk .nobody
  | issuing {reply command} (hc : session.caller = .idle) (hr : session.running = some command)
      (hw : session.store.Waits reply [.endStep]) (ho : session.store.outcome? reply = none)
      (ht : desk.Alive → repliesOf session.turns = []) : Calls session desk (.issuing reply)
  | waiting {reply settled command} (hc : session.caller = .commanding reply settled)
      (hr : session.running = some command) (hw : session.store.Waits reply [.endStep])
      (ht : desk.Alive → settled = false ∧ repliesOf session.turns = []) :
      Calls session desk .waiting
  | ended {reply settled running command interrupted}
      (hc : session.caller = .commanding reply settled) (hr : session.running = some running)
      (hg : session.store.Got reply (.endStep command interrupted))
      (ht : desk.Alive → session.Due reply settled) :
      Calls session desk (.ended command interrupted)
  | answered {result} (hc : session.caller = .answered result) (hr : session.running = none)
      (ht : desk.Alive → repliesOf session.turns = []) : Calls session desk (.answered result)

/-- A session is as its ledger has it, with some notices that have yet to be passed on. -/
structure Keeps (session : Session) (pending : List Notice) (ledger : Ledger) : Prop where
  notices : session.store.notices = pending
  listeners : session.store.listeners = listeners
  /-- No listener publishes the bounds of cycles. -/
  wires : ∀ wire ∈ session.store.tripwires, wire.event.Unbound
  loaded : session.bench.recording.loaded = true
  fresh : session.store.Fresh
  direct : session.directCycle = none
  bounds : TraceDebugger.bounds session.store.published = ledger.bounds
  active : session.bench.active = ledger.desk.running?
  cycle : session.ownCycle.map (·.command) = ledger.desk.running?
  /-- The tickets of the cycle are none of a caller's. -/
  aloof : ∀ cycle, session.ownCycle = some cycle →
    ∀ ticket ∈ cycle.tickets, session.store.Aloof ticket
  tends : Tends session ledger.desk
  calls : Calls session ledger.desk ledger.call

/-! ### What the books do not tell of -/

/-- Nothing has changed that the books tell of, except for what was published. -/
structure Aside (session next : Session) : Prop where
  listeners : next.store.listeners = session.store.listeners
  wires : ∀ wire ∈ next.store.tripwires, wire.event.Unbound
  bench : session.bench.Retains next.bench
  spares : session.store.Spares next.store
  direct : next.directCycle = session.directCycle
  cycle : next.ownCycle.map (·.command) = session.ownCycle.map (·.command)
  aloof : ∀ cycle, next.ownCycle = some cycle → ∀ ticket ∈ cycle.tickets,
    next.store.Aloof ticket
  dispatcher : next.dispatcher = session.dispatcher
  caller : next.caller = session.caller
  running : next.running = session.running
  commands : commandsOf next.turns = commandsOf session.turns
  replies : repliesOf next.turns = repliesOf session.turns

theorem Tends.congr (h : Tends session desk) (hs : session.store.Spares next.store)
    (hd : next.dispatcher = session.dispatcher)
    (ht : commandsOf next.turns = commandsOf session.turns) : Tends next desk := by
  cases h with
  | free hd' hw ht' => exact .free (hd.trans hd') (hs.waits hw) (ht.trans ht')
  | told hd' hg hk hn ht' =>
    exact .told (hd.trans hd') (hs.got hg) hk (hs.notices ▸ hn) (ht.trans ht')
  | holding hd' hk ht' => exact .holding (hd.trans hd') hk (ht.trans ht')
  | busy hd' ht' => exact .busy (hd.trans hd') (ht.trans ht')
  | running hd' ht' => exact .running (hd.trans hd') (ht.trans ht')
  | crashed hd' ht' => exact .crashed (hd.trans hd') (ht.trans ht')

theorem Due.congr {reply : Ticket} {settled : Bool} (h : session.Due reply settled)
    (hn : .taken reply ∉ session.store.notices → .taken reply ∉ next.store.notices)
    (ht : repliesOf next.turns = repliesOf session.turns) : next.Due reply settled := by
  cases settled with
  | false =>
    rw [Due, ht]
    exact h
  | true =>
    rw [Due, ht]
    exact ⟨hn h.1, h.2⟩

theorem Calls.congr (h : Calls session desk call) (hs : session.store.Spares next.store)
    (hc : next.caller = session.caller) (hr : next.running = session.running)
    (ht : repliesOf next.turns = repliesOf session.turns) : Calls next desk call := by
  cases h with
  | nobody hc' hr' ht' => exact .nobody (hc.trans hc') (hr.trans hr') fun hd => ht.trans (ht' hd)
  | issuing hc' hr' hw ho ht' =>
    exact .issuing (hc.trans hc') (hr.trans hr') (hs.waits hw) ((hs.outcome? _).trans ho)
      fun hd => ht.trans (ht' hd)
  | waiting hc' hr' hw ht' =>
    exact .waiting (hc.trans hc') (hr.trans hr') (hs.waits hw)
      fun hd => ⟨(ht' hd).1, ht.trans (ht' hd).2⟩
  | ended hc' hr' hg ht' =>
    exact .ended (hc.trans hc') (hr.trans hr') (hs.got hg)
      fun hd => (ht' hd).congr (hs.notices ▸ id) ht
  | answered hc' hr' ht' =>
    exact .answered (hc.trans hc') (hr.trans hr') fun hd => ht.trans (ht' hd)

theorem Keeps.aside_bounds (h : session.Keeps pending ledger) (ha : session.Aside next)
    {bounds : List Event} (hp : TraceDebugger.bounds next.store.published = bounds) :
    next.Keeps pending { ledger with bounds } where
  notices := ha.spares.notices.trans h.notices
  listeners := ha.listeners.trans h.listeners
  wires := ha.wires
  loaded := ha.bench.loaded h.loaded
  fresh := ha.spares.fresh
  direct := ha.direct.trans h.direct
  bounds := hp
  active := ha.bench.active.trans h.active
  cycle := ha.cycle.trans h.cycle
  aloof := ha.aloof
  tends := h.tends.congr ha.spares ha.dispatcher ha.commands
  calls := h.calls.congr ha.spares ha.caller ha.running ha.replies

theorem Keeps.aside (h : session.Keeps pending ledger) (ha : session.Aside next)
    (hp : TraceDebugger.bounds next.store.published
      = TraceDebugger.bounds session.store.published) :
    next.Keeps pending ledger := h.aside_bounds ha (hp.trans h.bounds)

/-- Who else takes part has changed, and the turns of others. -/
theorem Keeps.elsewhere (h : session.Keeps pending ledger) (hs : next.store = session.store)
    (hd : next.dispatcher = session.dispatcher) (hc : next.ownCycle = session.ownCycle)
    (hc' : next.directCycle = session.directCycle) (ha : next.caller = session.caller)
    (hr : next.running = session.running) (hq : commandsOf next.turns = commandsOf session.turns)
    (hp : repliesOf next.turns = repliesOf session.turns) : next.Keeps pending ledger := by
  have hspares : session.store.Spares next.store := by
    rw [hs]
    exact .refl h.fresh
  refine h.aside ⟨by rw [hs], hs ▸ h.wires, .of_recording ?_ ?_, hspares, hc',
    by rw [hc], fun cycle hcycle ticket ht => ?_, hd, ha, hr, hq, hp⟩ (by rw [hs])
  · rw [bench, bench, hs]
  · rw [bench, bench, hs]
  · exact hspares.aloof (h.aloof cycle (hc ▸ hcycle) ticket ht)

/-- The turns that tell of commands. -/
def Quiet (turn : Turn) : Prop := commandsOf [turn] = [] ∧ repliesOf [turn] = []

theorem Keeps.later (h : session.Keeps pending ledger) {turn : Turn} (ht : Quiet turn) :
    (session.later turn).Keeps pending ledger := by
  refine h.elsewhere rfl rfl rfl rfl rfl rfl ?_ ?_
  · exact (commandsOf_append _ _).trans (by rw [ht.1, List.append_nil])
  · exact (repliesOf_append _ _).trans (by rw [ht.2, List.append_nil])

theorem Keeps.atOnce (h : session.Keeps pending ledger) {turn : Turn} (ht : Quiet turn) :
    (session.atOnce turn).Keeps pending ledger := by
  refine h.elsewhere rfl rfl rfl rfl rfl rfl ?_ ?_
  · exact (commandsOf_append [turn] _).trans (by rw [ht.1, List.nil_append])
  · exact (repliesOf_append [turn] _).trans (by rw [ht.2, List.nil_append])

/-- The cycle of the dispatcher has changed, and still is one of the same command. -/
theorem Keeps.onCycle (h : session.Keeps pending ledger) {change : Cycle → Cycle}
    (hc : ∀ cycle, (change cycle).command = cycle.command)
    (ht : ∀ cycle, session.ownCycle = some cycle → ∀ ticket ∈ (change cycle).tickets,
      session.store.Aloof ticket) : (session.onCycle .own change).Keeps pending ledger := by
  refine h.aside ⟨rfl, h.wires, .refl _, .refl h.fresh, rfl,
    ?_, fun cycle hcycle ticket hticket => ?_, rfl, rfl, rfl, rfl, rfl⟩ rfl
  · show (session.ownCycle.map change).map (·.command) = session.ownCycle.map (·.command)
    rw [Option.map_map]
    exact congrArg (session.ownCycle.map ·) (funext hc)
  · obtain ⟨cycle', hcycle', rfl⟩ := Option.map_eq_some_iff.mp
      (show session.ownCycle.map change = some cycle from hcycle)
    exact ht cycle' hcycle' ticket hticket

/-- A pursuit that waits for nothing has no ticket. -/
theorem Keeps.setRun (h : session.Keeps pending ledger) {run : RunStatus} (hr : run.takers = []) :
    (session.setRun .own run).Keeps pending ledger := by
  refine h.onCycle (fun _ => rfl) fun cycle hc ticket ht => h.aloof cycle hc ticket ?_
  rw [Cycle.tickets] at ht ⊢
  rcases List.mem_cons.mp ht with rfl | ht
  · exact List.mem_cons_self
  · cases run with
    | waiting => cases hr
    | _ => cases ht

/-- The store has changed and nobody has begun or ceased to wait. -/
theorem Keeps.withStore (h : session.Keeps pending ledger) {store : Store}
    (hl : store.listeners = session.store.listeners)
    (hw : ∀ wire ∈ store.tripwires, wire.event.Unbound) (hb : session.bench.Retains store.bench)
    (hs : session.store.Spares store)
    (hp : TraceDebugger.bounds store.published = TraceDebugger.bounds session.store.published) :
    (session.withStore store).Keeps pending ledger :=
  h.aside ⟨hl, hw, hb, hs, rfl, rfl,
    fun cycle hc ticket ht => hs.aloof (h.aloof cycle hc ticket ht), rfl, rfl, rfl, rfl, rfl⟩ hp

/-- Listeners have come or gone, and none of them publishes the bounds of cycles. -/
theorem Keeps.rewired (h : session.Keeps pending ledger) {tripwires : List Tripwire}
    {given : Ticket} (hw : ∀ wire ∈ tripwires, wire.event.Unbound)
    (hle : session.store.nextTicket ≤ given) :
    (session.withStore { session.store with tripwires, nextTicket := given }).Keeps pending
      ledger :=
  h.withStore rfl hw (.refl _) (h.fresh.spares rfl rfl rfl hle) rfl

theorem Keeps.onBench (h : session.Keeps pending ledger) {bench : Workbench}
    (hb : session.bench.Retains bench) :
    (session.withStore { session.store with bench }).Keeps pending ledger :=
  h.withStore rfl h.wires hb (h.fresh.spares rfl rfl rfl (Nat.le_refl _)) rfl

theorem Keeps.log (h : session.Keeps pending ledger) (level : Int) (component message : String) :
    (session.log level component message).Keeps pending ledger :=
  h.onBench (.of_recording rfl rfl)

theorem Keeps.take (h : session.Keeps pending ledger) (kinds : List EventKind) :
    (session.take kinds).2.Keeps pending ledger :=
  h.withStore rfl h.wires (.refl _) (h.fresh.spares_take kinds) rfl

/-! ### Deliveries -/

variable {event : Event}

theorem exists_command_of_kind (hk : event.kind ∈ EventKind.commands) :
    ∃ command, event.kind = .command command := by
  obtain ⟨command, -, hcommand⟩ := List.mem_map.mp hk
  exact ⟨command, hcommand.symm⟩

/-- A dispatcher that waits gets a command that is delivered. -/
theorem Tends.deliver (h : Tends session desk) (hf : session.store.Fresh) (event : Event) :
    ∃ desk', (desk' = desk ∨ ∃ command, desk = .free ∧ event.kind = .command command ∧
        desk' = .holding event) ∧ (event.kind ∈ EventKind.commands → desk' ≠ .free) ∧
      Tends (session.withStore (session.store.deliver event)) desk' := by
  cases h with
  | free hd hw ht =>
    by_cases hk : event.kind ∈ EventKind.commands
    · obtain ⟨command, hcommand⟩ := exists_command_of_kind hk
      obtain ⟨hg, hn⟩ := hw.deliver hf hk
      exact ⟨_, .inr ⟨command, rfl, hcommand, rfl⟩, by simp, .told hd hg hcommand hn ht⟩
    · exact ⟨_, .inl rfl, fun hk' => absurd hk' hk, .free hd (hw.deliver_other hk) ht⟩
  | told hd hg hk hn ht =>
    exact ⟨_, .inl rfl, by simp,
      .told hd (hg.deliver event) hk (Store.mem_notices_deliver.mpr (.inl hn)) ht⟩
  | holding hd hk ht => exact ⟨_, .inl rfl, by simp, .holding hd hk ht⟩
  | busy hd ht => exact ⟨_, .inl rfl, by simp, .busy hd ht⟩
  | running hd ht => exact ⟨_, .inl rfl, by simp, .running hd ht⟩
  | crashed hd ht => exact ⟨_, .inl rfl, by simp, .crashed hd ht⟩

/-- The end of a command that a caller has got stays due. -/
theorem Due.deliver {reply : Ticket} {settled : Bool} {ended : Event}
    (h : session.Due reply settled) (hg : session.store.Got reply ended) (event : Event) :
    (session.withStore (session.store.deliver event)).Due reply settled :=
  h.congr (fun hn => hg.untold_deliver hn event) rfl

/-- Callers wait for ends of commands only. -/
theorem Calls.deliver (h : Calls session desk call) {desk' : Desk} (ha : desk'.Alive → desk.Alive)
    (hk : event.kind ≠ .endStep) :
    Calls (session.withStore (session.store.deliver event)) desk' call := by
  have hk : event.kind ∉ [EventKind.endStep] := fun hm => hk (List.mem_singleton.mp hm)
  cases h with
  | nobody hc hr ht => exact .nobody hc hr fun hd => ht (ha hd)
  | issuing hc hr hw ho ht =>
    exact .issuing hc hr (hw.deliver_other hk) ((hw.outcome?_deliver_other hk).trans ho)
      fun hd => ht (ha hd)
  | waiting hc hr hw ht => exact .waiting hc hr (hw.deliver_other hk) fun hd => ht (ha hd)
  | ended hc hr hg ht =>
    exact .ended hc hr (hg.deliver event) fun hd => (ht (ha hd)).deliver hg event
  | answered hc hr ht => exact .answered hc hr fun hd => ht (ha hd)

/-- A caller that waits gets the end of a command. -/
theorem Calls.hear (h : Calls session desk call) (hf : session.store.Fresh) (ha : desk.Alive)
    (hi : ∀ reply, call ≠ .issuing reply) (command : Command) (interrupted : Bool) :
    Calls (session.withStore (session.store.deliver (.endStep command interrupted))) desk
      (call.hear command interrupted) := by
  cases h with
  | nobody hc hr ht => exact .nobody hc hr ht
  | issuing => exact absurd rfl (hi _)
  | waiting hc hr hw ht =>
    obtain ⟨rfl, hnone⟩ := ht ha
    have hk : (Event.endStep command interrupted).kind ∈ [EventKind.endStep] := List.mem_cons_self
    obtain ⟨hg, -⟩ := hw.deliver hf hk
    -- so far nothing has told the caller of an end
    refine .ended hc hr hg fun _ turn hturn => ?_
    have hturn : turn ∈ repliesOf session.turns := hturn
    rw [hnone] at hturn
    cases hturn
  | ended hc hr hg ht => exact .ended hc hr (hg.deliver _) fun hd => (ht hd).deliver hg _
  | answered hc hr ht => exact .answered hc hr ht

/-- An event other than the end of a cycle is delivered. -/
theorem Keeps.deliver (h : session.Keeps pending ledger) (hk : event.kind ≠ .endStep) :
    ∃ ledger', ledger.Hears (· = event) ledger' ∧
      (event.kind ∈ EventKind.commands → ledger'.desk ≠ .free) ∧
      (session.withStore (session.store.deliver event)).Keeps
        (session.store.deliver event).notices ledger' := by
  obtain ⟨desk', hdesk, hserved, htends⟩ := h.tends.deliver h.fresh event
  -- the dispatcher may take a command, and nothing else is entered in the books
  have halive : desk'.Alive → ledger.desk.Alive := by
    obtain rfl | ⟨command, hfree, -, -⟩ := hdesk
    · exact id
    · intro _ fault hcrashed
      cases hfree.symm.trans hcrashed
  have hrunning : desk'.running? = ledger.desk.running? := by
    obtain rfl | ⟨command, hfree, -, rfl⟩ := hdesk
    · rfl
    · rw [hfree]
      rfl
  refine ⟨{ ledger with desk := desk' }, ?_, hserved, ?_⟩
  · obtain rfl | ⟨command, hfree, hcommand, rfl⟩ := hdesk
    · exact .inl rfl
    · exact .inr ⟨event, command, hfree, rfl, hcommand, rfl⟩
  · exact ⟨rfl, h.listeners, h.wires, h.loaded, h.fresh.deliver event, h.direct, h.bounds,
      h.active.trans hrunning.symm, h.cycle.trans hrunning.symm,
      fun cycle hc ticket ht => (h.aloof cycle hc ticket ht).deliver event, htends,
      h.calls.deliver halive hk⟩

/-- The end of a cycle is delivered. -/
theorem Keeps.deliver_end (h : session.Keeps pending ledger) (hd : ledger.desk = .busy)
    (hi : ∀ reply, ledger.call ≠ .issuing reply) (command : Command) (interrupted : Bool) :
    (session.withStore (session.store.deliver (.endStep command interrupted))).Keeps
      (session.store.deliver (.endStep command interrupted)).notices
      { ledger with call := ledger.call.hear command interrupted } := by
  obtain ⟨desk', hdesk, -, htends⟩ := h.tends.deliver h.fresh (.endStep command interrupted)
  obtain rfl : desk' = ledger.desk := by
    obtain rfl | ⟨_, hfree, -⟩ := hdesk
    · rfl
    · cases hd.symm.trans hfree
  have halive : ledger.desk.Alive := fun fault hcrashed => by cases hd.symm.trans hcrashed
  exact ⟨rfl, h.listeners, h.wires, h.loaded, h.fresh.deliver _, h.direct, h.bounds, h.active,
    h.cycle, fun cycle hc ticket ht => (h.aloof cycle hc ticket ht).deliver _, htends,
    h.calls.hear h.fresh halive hi command interrupted⟩

theorem Keeps.note (h : session.Keeps pending ledger) (hk : event.Unbound) :
    (session.withStore (session.store.note event)).Keeps pending ledger :=
  h.withStore rfl h.wires (.refl _) (h.fresh.spares rfl rfl rfl (Nat.le_refl _))
    (bounds_cons_of_not hk _)

/-- The bound of a cycle is noted. -/
theorem Keeps.note_bound (h : session.Keeps pending ledger) (hk : event.kind ∈ EventKind.bounds) :
    (session.withStore (session.store.note event)).Keeps pending
      { ledger with bounds := event :: ledger.bounds } := by
  have hs : session.store.Spares (session.store.note event) :=
    h.fresh.spares rfl rfl rfl (Nat.le_refl _)
  have ha : session.Aside (session.withStore (session.store.note event)) :=
    ⟨rfl, h.wires, .refl _, hs, rfl, rfl,
      fun cycle hc ticket ht => hs.aloof (h.aloof cycle hc ticket ht), rfl, rfl, rfl, rfl, rfl⟩
  exact h.aside_bounds ha ((bounds_cons_of_bound hk _).trans (congrArg _ h.bounds))

/-! ### Notices -/

/-- The session with other notices that have yet to be passed on. -/
def withNotices (notices : List Notice) (session : Session) : Session :=
  session.withStore { session.store with notices }

variable {notices : List Notice} {notice : Notice} {ticket : Ticket}

/-- The engine takes no commands. -/
theorem Keeps.tellEngine (h : session.Keeps pending ledger) (ticket : Ticket) (event : Event) :
    (session.tellEngine ticket event).Keeps pending ledger := by
  rw [Session.tellEngine]
  split
  · split
    · have he : ({ session with engine := .receivingTrace } : Session).Keeps pending ledger :=
        h.elsewhere rfl rfl rfl rfl rfl rfl rfl rfl
      exact he.later ⟨rfl, rfl⟩
    · exact h
  · exact h

/-- A dispatcher that waits and is to be told has got a command. -/
theorem Tends.exists_got (h : Tends session desk)
    (hd : session.dispatcher = .awaitingCommand ticket)
    (hn : .taken ticket ∈ session.store.notices) :
    ∃ event command, desk = .holding event ∧ session.store.Got ticket event ∧
      event.kind = .command command ∧ commandsOf session.turns = [] := by
  cases h with
  | free hd' hw =>
    obtain rfl := DispatcherStatus.awaitingCommand.inj (hd'.symm.trans hd)
    exact absurd hn hw.untold
  | told hd' hg hk _ ht =>
    obtain rfl := DispatcherStatus.awaitingCommand.inj (hd'.symm.trans hd)
    exact ⟨_, _, rfl, hg, hk, ht⟩
  | holding hd' => cases hd'.symm.trans hd
  | busy hd' => cases hd'.symm.trans hd
  | running hd' => cases hd'.symm.trans hd
  | crashed hd' => cases hd'.symm.trans hd

/-- The dispatcher that has got a command is told, and has a turn. -/
theorem Keeps.tellDispatcher (h : session.Keeps pending ledger)
    (hn : .taken ticket ∈ session.store.notices)
    (ho : session.store.outcome? ticket = some event) :
    (session.tellDispatcher ticket event).Keeps pending ledger ∧
      (session.tellDispatcher ticket event).dispatcher ≠ .awaitingCommand ticket := by
  obtain ⟨desk, call, bounds⟩ := ledger
  rw [Session.tellDispatcher]
  split
  · rename_i awaited hd
    split
    · rename_i heq
      subst heq
      refine ⟨?_, fun hd => by cases hd⟩
      obtain ⟨got, command, hdesk, hg, hk, ht⟩ := h.tends.exists_got hd hn
      -- what it has got is this event
      obtain rfl := Option.some.inj (ho.symm.trans hg.got)
      obtain rfl : desk = .holding event := hdesk
      have hcommands : commandsOf (session.turns ++ [.command event]) = [event] := by
        rw [commandsOf_append, ht]
        rfl
      have hreplies : repliesOf (session.turns ++ [.command event]) = repliesOf session.turns := by
        rw [repliesOf_append]
        exact List.append_nil _
      exact ⟨h.notices, h.listeners, h.wires, h.loaded, h.fresh, h.direct, h.bounds, h.active,
        h.cycle, h.aloof, .holding rfl hk hcommands,
        h.calls.congr (.refl h.fresh) rfl rfl hreplies⟩
    · rename_i hne
      refine ⟨h, fun hd' => hne ?_⟩
      exact DispatcherStatus.awaitingCommand.inj (hd.symm.trans hd')
  · rename_i hd
    exact ⟨h, hd ticket⟩

/-- So is a pursuit that waited for a step, and a cycle that was interrupted. -/
theorem Keeps.tellLane (h : session.Keeps pending ledger) (ticket : Ticket) (lane : Lane) :
    (session.tellLane ticket lane).Keeps pending ledger := by
  cases lane with
  | direct =>
    have hnone : session.cycle? .direct = none := h.direct
    rw [tellLane_none hnone]
    exact h
  | own =>
    rw [Session.tellLane]
    split
    · exact h
    · split
      · split
        · exact h
        · exact h.later ⟨rfl, rfl⟩
      · split
        · split
          · exact (h.setRun rfl).later ⟨rfl, rfl⟩
          · exact h
        · exact h

/-- A caller has another turn in which it learns something. -/
theorem Keeps.later_reply (h : session.Keeps pending ledger) {turn : Turn}
    (hq : commandsOf [turn] = []) (hc : Calls (session.later turn) ledger.desk ledger.call) :
    (session.later turn).Keeps pending ledger := by
  have hcommands : commandsOf (session.turns ++ [turn]) = commandsOf session.turns := by
    rw [commandsOf_append, hq, List.append_nil]
  exact ⟨h.notices, h.listeners, h.wires, h.loaded, h.fresh, h.direct, h.bounds, h.active,
    h.cycle, h.aloof, h.tends.congr (.refl h.fresh) rfl hcommands, hc⟩

/-- A caller is told of the end of a command only. -/
theorem Keeps.tellCaller (h : session.Keeps pending ledger)
    (hn : .taken ticket ∈ session.store.notices) :
    (session.tellCaller ticket).Keeps pending ledger := by
  obtain ⟨desk, call, bounds⟩ := ledger
  have hcalls : Calls session desk call := h.calls
  rw [Session.tellCaller]
  cases hcalls with
  | nobody hc | issuing hc | answered hc =>
    rw [hc]
    exact h
  | waiting hc hr hw =>
    rw [hc]
    dsimp only
    split
    · rename_i heq
      exact absurd hn (heq ▸ hw.untold)
    · exact h
  | @ended reply settled _ _ _ hc hr hg ht =>
    rw [hc]
    dsimp only
    split
    · rename_i heq
      subst heq
      refine h.later_reply rfl (.ended hc hr hg fun hd => ?_)
      cases settled with
      | false =>
        intro turn hturn
        have hturn : turn ∈ repliesOf (session.turns ++ [.reply]) := hturn
        rw [repliesOf_append] at hturn
        rcases List.mem_append.mp hturn with hturn | hturn
        · exact ht hd turn hturn
        · exact List.mem_singleton.mp hturn
      | true =>
        -- its wait is decided, so it has been told before
        exact absurd hn (ht hd).1
    · exact h

theorem dispatcher_tellLane (session : Session) (ticket : Ticket) (lane : Lane) :
    (session.tellLane ticket lane).dispatcher = session.dispatcher := by
  rw [Session.tellLane]
  split
  · rfl
  · split
    · split <;> rfl
    · split
      · split
        · cases lane <;> rfl
        · rfl
      · rfl

theorem dispatcher_tellCaller (session : Session) (ticket : Ticket) :
    (session.tellCaller ticket).dispatcher = session.dispatcher := by
  rw [Session.tellCaller]
  split
  · split <;> rfl
  · split <;> rfl
  · rfl

/-- A dispatcher that is to be told has got something. -/
theorem Tends.ne_of_none (h : Tends session desk) (hn : .taken ticket ∈ session.store.notices)
    (ho : session.store.outcome? ticket = none) : session.dispatcher ≠ .awaitingCommand ticket := by
  intro hd
  obtain ⟨event, -, -, hg, -⟩ := h.exists_got hd hn
  cases hg.got.symm.trans ho

theorem store_of_withStore {told : Session} (h : told = told.withStore session.store) :
    told.store = session.store := by
  rw [h]
  rfl

theorem store_tellEngine (session : Session) (ticket : Ticket) (event : Event) :
    (session.tellEngine ticket event).store = session.store :=
  store_of_withStore (tellEngine_withStore session ticket session.store event)

theorem store_tellDispatcher (session : Session) (ticket : Ticket) (event : Event) :
    (session.tellDispatcher ticket event).store = session.store :=
  store_of_withStore (tellDispatcher_withStore session ticket session.store event)

theorem store_tellLane (session : Session) (ticket : Ticket) (lane : Lane) :
    (session.tellLane ticket lane).store = session.store :=
  store_of_withStore (tellLane_withStore session ticket session.store lane)

/-- A notice that was passed on is gone. -/
theorem Keeps.withNotices (h : session.Keeps (notice :: notices) ledger)
    (hd : ∀ ticket, notice = .taken ticket → session.dispatcher ≠ .awaitingCommand ticket) :
    (session.withNotices notices).Keeps notices ledger := by
  have hn := h.notices
  have hrest {ticket : Ticket} (hm : .taken ticket ∈ notices) :
      .taken ticket ∈ session.store.notices := hn ▸ List.mem_cons_of_mem _ hm
  have hwaits {ticket : Ticket} {kinds : List EventKind} (hw : session.store.Waits ticket kinds) :
      (session.withNotices notices).store.Waits ticket kinds :=
    ⟨hw.mem, hw.only, fun hm => hw.untold (hrest hm)⟩
  have hgot {ticket : Ticket} {event : Event} (hg : session.store.Got ticket event) :
      (session.withNotices notices).store.Got ticket event := ⟨hg.lt, hg.gone, hg.got⟩
  obtain ⟨desk, call, bounds⟩ := ledger
  have htends : Tends (session.withNotices notices) desk := by
    have htends : Tends session desk := h.tends
    cases htends with
    | free hd' hw ht => exact .free hd' (hwaits hw) ht
    | @told ticket _ _ hd' hg hk hm ht =>
      -- the notice for the dispatcher is not the one that was passed on
      refine .told hd' (hgot hg) hk ?_ ht
      rw [hn] at hm
      exact (List.mem_cons.mp hm).resolve_left fun heq => hd ticket heq.symm hd'
    | holding hd' hk ht => exact .holding hd' hk ht
    | busy hd' ht => exact .busy hd' ht
    | running hd' ht => exact .running hd' ht
    | crashed hd' ht => exact .crashed hd' ht
  have hcalls : Calls (session.withNotices notices) desk call := by
    have hcalls : Calls session desk call := h.calls
    cases hcalls with
    | nobody hc hr ht => exact .nobody hc hr ht
    | issuing hc hr hw ho ht => exact .issuing hc hr (hwaits hw) ho ht
    | waiting hc hr hw ht => exact .waiting hc hr (hwaits hw) ht
    | ended hc hr hg ht =>
      exact .ended hc hr (hgot hg) fun hd => (ht hd).congr (fun hu hm => hu (hrest hm)) rfl
    | answered hc hr ht => exact .answered hc hr ht
  exact ⟨rfl, h.listeners, h.wires, h.loaded,
    ⟨h.fresh.takers, h.fresh.outcomes, fun ticket hm => h.fresh.notices ticket (hrest hm)⟩,
    h.direct, h.bounds, h.active, h.cycle,
    fun cycle hc ticket ht => ⟨(h.aloof cycle hc ticket ht).lt, (h.aloof cycle hc ticket ht).other⟩,
    htends, hcalls⟩

/-- Whoever a notice is for is told. -/
theorem Keeps.tell (h : session.Keeps (notice :: notices) ledger) :
    ((session.tell notice).withNotices notices).Keeps notices ledger := by
  cases notice with
  | delivered channel =>
    have htold : (session.tell (.delivered channel)).Keeps (.delivered channel :: notices)
        ledger := by
      rw [Session.tell]
      split
      · split
        · have he : ({ session with engine := .serving channel } : Session).Keeps
              (.delivered channel :: notices) ledger := h.elsewhere rfl rfl rfl rfl rfl rfl rfl rfl
          exact he.later ⟨rfl, rfl⟩
        · exact h
      · exact h
    exact htold.withNotices fun ticket heq => by cases heq
  | taken ticket =>
    have hmem : .taken ticket ∈ session.store.notices := h.notices ▸ List.mem_cons_self
    -- only the dispatcher's own notice has to be passed on for the books to be kept
    suffices htold : (session.tell (.taken ticket)).Keeps (.taken ticket :: notices) ledger ∧
        (session.tell (.taken ticket)).dispatcher ≠ .awaitingCommand ticket from
      htold.1.withNotices fun other heq => by
        obtain rfl := Notice.taken.inj heq
        exact htold.2
    cases ho : session.store.outcome? ticket with
    | none =>
      have htell : session.tell (.taken ticket) = session := by rw [Session.tell, ho]
      rw [htell]
      exact ⟨h, h.tends.ne_of_none hmem ho⟩
    | some event =>
      rw [tell_taken ho]
      have hengine := h.tellEngine ticket event
      have hstore := store_tellEngine session ticket event
      -- the engine, the dispatcher, the two lanes and the caller, one after the other
      obtain ⟨hdispatcher, hne⟩ := hengine.tellDispatcher (hstore ▸ hmem) (hstore ▸ ho)
      refine ⟨((hdispatcher.tellLane ticket .own).tellLane ticket .direct).tellCaller ?_, ?_⟩
      · rw [store_tellLane, store_tellLane, store_tellDispatcher, store_tellEngine]
        exact hmem
      · rw [dispatcher_tellCaller, dispatcher_tellLane, dispatcher_tellLane]
        exact hne

/-- All notices are passed on. -/
theorem Keeps.tellAll (h : session.Keeps pending ledger) : session.tellAll.Keeps [] ledger := by
  have hfold (notices : List Notice) : ∀ {session : Session},
      (session.withNotices notices).Keeps notices ledger →
        ((notices.foldl Session.tell session).withNotices []).Keeps [] ledger := by
    induction notices with
    | nil => exact fun h => h
    | cons notice notices ih =>
      intro session h
      -- whoever is told leaves the notices alone, so the rest are as they were
      have htell := h.tell
      have hsame : (session.withNotices (notice :: notices)).tell notice
          = (session.tell notice).withStore _ := tell_withStore session fun _ _ => rfl
      rw [hsame] at htell
      have hrest : ((session.tell notice).withNotices notices).Keeps notices ledger := by
        rw [Session.withNotices, store_tell]
        exact htell
      exact ih hrest
  obtain rfl := h.notices
  have htold := @hfold session.store.notices (session.withNotices []) h
  have hstore : session.tellAll.store = { session.store with notices := [] } := store_foldl_tell _ _
  have hnone : session.tellAll.withNotices [] = session.tellAll := by
    rw [Session.withNotices, hstore]
    exact congrArg session.tellAll.withStore hstore.symm
  exact hnone ▸ htold

/-! ### Publications -/

/-- What a session publishes is fit, and its dispatcher has taken a command at most. -/
structure Publishing (fit : Event → Prop) (session : Session) (ledger : Ledger) (store : Store) :
    Prop where
  wires : ∀ wire ∈ store.tripwires, fit wire.event
  aloof : ∀ {ticket}, session.store.Aloof ticket → store.Aloof ticket
  keeps : ∃ pending ledger', ledger.Hears fit ledger' ∧
    (session.withStore store).Keeps pending ledger'

variable {fit : Event → Prop} {change : StoreM Unit}

theorem Publishing.listeners {store : Store} (h : session.Publishing fit ledger store) :
    store.listeners = Session.listeners := by
  obtain ⟨_, _, -, hkeeps⟩ := h.keeps
  exact hkeeps.listeners

theorem Publishing.loaded {store : Store} (h : session.Publishing fit ledger store) :
    store.bench.recording.loaded = true := by
  obtain ⟨_, _, -, hkeeps⟩ := h.keeps
  exact hkeeps.loaded

/-- All parts of publications keep to that. -/
theorem lasting_publishing (hf : ∀ event, fit event → event.Unbound)
    (hd : ∀ event : Event, event.Derived → fit event) (session : Session) (ledger : Ledger) :
    Store.Lasting fit (session.Publishing fit ledger) where
  derived := hd _
  listeners := Publishing.listeners
  wires := fun hp => hp.wires
  note := by
    rintro store event hfit ⟨hwires, haloof, pending, ledger', hhears, hkeeps⟩
    refine ⟨hwires, fun ha => ⟨(haloof ha).lt, (haloof ha).other⟩, pending, ledger', hhears, ?_⟩
    exact hkeeps.note (hf event hfit)
  bench := by
    rintro store bench hretains ⟨hwires, haloof, pending, ledger', hhears, hkeeps⟩
    exact ⟨hwires, fun ha => ⟨(haloof ha).lt, (haloof ha).other⟩, pending, ledger', hhears,
      hkeeps.onBench hretains⟩
  unwire := by
    rintro store ticket ⟨hwires, haloof, pending, ledger', hhears, hkeeps⟩
    refine ⟨fun wire hw => hwires wire (List.mem_of_mem_filter hw),
      fun ha => ⟨(haloof ha).lt, (haloof ha).other⟩, pending, ledger', hhears, ?_⟩
    exact hkeeps.rewired (fun wire hw => hkeeps.wires wire (List.mem_of_mem_filter hw))
      (Nat.le_refl _)
  deliver := by
    rintro store event hfit ⟨hwires, haloof, pending, ledger', hhears, hkeeps⟩
    -- the dispatcher may get this event, unless it has got one that was published inside
    obtain ⟨ledger'', hhears', -, hkeeps'⟩ := hkeeps.deliver (hf event hfit).kind_ne_endStep
    refine ⟨hwires, fun ha => (haloof ha).deliver event, _, ledger'', hhears.trans ?_, hkeeps'⟩
    exact hhears'.mono fun _ heq => heq ▸ hfit

theorem Keeps.publishing (h : session.Keeps pending ledger)
    (hw : ∀ wire ∈ session.store.tripwires, fit wire.event) :
    session.Publishing fit ledger session.store := ⟨hw, id, pending, ledger, .inl rfl, h⟩

/-- What a session has published is passed on. -/
theorem Publishing.tellAll {last : Store} (h : session.Publishing fit ledger last) :
    ∃ ledger', ledger.Hears fit ledger' ∧ (session.withStore last).tellAll.Keeps [] ledger' ∧
      ∀ {ticket}, session.store.Aloof ticket →
        (session.withStore last).tellAll.store.Aloof ticket := by
  obtain ⟨-, haloof, _, ledger', hhears, hkeeps⟩ := h
  have hstore : (session.withStore last).tellAll.store = { last with notices := [] } :=
    store_foldl_tell _ _
  refine ⟨ledger', hhears, hkeeps.tellAll, fun ha => ?_⟩
  rw [hstore]
  exact ⟨(haloof ha).lt, (haloof ha).other⟩

/-- Whatever a change of the store publishes, the dispatcher takes a command at most. -/
theorem Keeps.attempt (h : session.Keeps pending ledger)
    (hw : ∀ wire ∈ session.store.tripwires, fit wire.event)
    (hc : Store.Upholds (session.Publishing fit ledger) (fun _ => True) change) :
    ∃ ledger', ledger.Hears fit ledger' ∧ (session.attempt change).1.Keeps [] ledger' ∧
      ∀ {ticket}, session.store.Aloof ticket →
        (session.attempt change).1.store.Aloof ticket := by
  obtain ⟨_, last, hrun, hlast, -⟩ | ⟨fault, last, hrun, hlast⟩ :=
    hc session.store (h.publishing hw)
  · rw [attempt_ok hrun]
    exact hlast.tellAll
  · rw [attempt_error hrun]
    exact hlast.tellAll

/-- No derived event is the bound of a cycle. -/
theorem unbound_of_derived (event : Event) (hd : event.Derived) : event.Unbound := by
  have hapart : ∀ kind ∈ EventKind.derived, kind ∉ EventKind.bounds := by decide
  exact hapart _ hd.kind_mem

theorem lasting_unbound (session : Session) (ledger : Ledger) :
    Store.Lasting Event.Unbound (session.Publishing Event.Unbound ledger) :=
  lasting_publishing (fun _ hfit => hfit) unbound_of_derived session ledger

/-- An event other than a bound is published. -/
theorem Keeps.put (h : session.Keeps pending ledger) (hk : event.Unbound) :
    ∃ ledger', ledger.Hears Event.Unbound ledger' ∧
      (session.put event).1.Keeps [] ledger' ∧
      ∀ {ticket}, session.store.Aloof ticket → (session.put event).1.store.Aloof ticket :=
  h.attempt h.wires ((lasting_unbound session ledger).put hk)

end Session

end TraceDebugger
