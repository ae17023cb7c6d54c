/-
Commands one after the other.

An order is a command with what it needs.  Where the steps of a trace can all be processed
(`Session.Processes`), every order is carried out, and after any orders the session is a certain
number of advances away from where it began: the cursor tells how many (`At`).

* `processable_of_processes` — the steps of the trace can be processed from the first one on;
* `At.carryOut` — an order takes the session from its cursor to a later one, or announces the end;
* `At.obey` — so do orders in a row.
-/
import TraceDebugger.Proofs.Session.Loading

namespace TraceDebugger

/-- A command with what it needs. -/
inductive Order where
  | advance
  | stepNext
  | stepInto
  | stepOver
  | stepOut
  | continueUntil (breakpoints : List Breakpoint)

namespace Order

def command : Order → Command
  | advance => .advance
  | stepNext => .stepNext
  | stepInto => .stepInto
  | stepOver => .stepOver
  | stepOut => .stepOut
  | continueUntil _ => .continueUntil

/-- The event by which an order is given. -/
def event : Order → Event
  | continueUntil breakpoints => .continueUntil breakpoints
  | order => .ofCommand order.command

theorem event_kind (order : Order) : order.event.kind = .command order.command := by
  cases order <;> rfl

theorem breakpoints_event (order : Order) :
    order.command = .continueUntil → order.event.payload.breakpoints.isSome := by
  intro h
  cases order with
  | continueUntil breakpoints => rfl
  | _ => cases h

end Order

/-- Process so many steps. -/
def Store.advanceTimes : Nat → StoreM Unit
  | 0 => pure ()
  | count + 1 => do
    advanceTrace
    advanceTimes count

namespace Session

/-- Give an order and wait for what comes of it. -/
def carryOut (session : Session) (order : Order) : Session × Outcome :=
  session.perform (.command order.command order.event)

/-- The session after some orders, one after the other. -/
def obey (session : Session) (orders : List Order) : Session :=
  orders.foldl (fun session order => (session.carryOut order).1) session

def outcomes (session : Session) : List Order → List Outcome
  | [] => []
  | order :: rest => (session.carryOut order).2 :: (session.carryOut order).1.outcomes rest

/-- The position in the trace. -/
def cursor (session : Session) : Nat := session.bench.recording.cursor

def traceLength (session : Session) : Nat := session.bench.recording.steps.length

/-- The steps of the trace are all processed without a fault. -/
def Processes (session : Session) : Prop :=
  ∃ store, (Store.advanceTimes session.traceLength).run session.store = .ok () store

instance (session : Session) : Decidable session.Processes :=
  match h : (Store.advanceTimes session.traceLength).run session.store with
  | .ok () store => isTrue ⟨store, h⟩
  | .error fault store => isFalse fun ⟨last, hlast⟩ => by rw [h] at hlast; cases hlast

/-! ### Processing -/

/-- While a session rests nobody waits for what processing a step publishes. -/
theorem not_awaits_closing (base : Base) (ticket : Ticket) (bench : Workbench) :
    ¬ (base.store (Host.ready ticket).takers).Awaits bench.closing.kind := by
  obtain ⟨hclosing, hnext⟩ := closing_kind bench
  rw [Base.awaits_store_iff]
  rintro (⟨taker, ht, hk⟩ | ⟨-, hk⟩)
  · obtain rfl := List.mem_singleton.mp ht
    have hapart : ∀ kind ∈ [EventKind.tock, EventKind.endOfTrace], kind ∉ EventKind.commands := by
      decide
    exact hapart _ hclosing hk
  · exact hnext hk

theorem unwatched_ready (base : Base) (ticket : Ticket) :
    (base.store (Host.ready ticket).takers).Unwatched := by
  refine unwatched_of_takers base fun taker ht => ?_
  obtain rfl := List.mem_singleton.mp ht
  exact (by decide : ∀ kind ∈ EventKind.tick :: EventKind.derived, kind ∉ EventKind.commands)

/-- A step that is processed while a session rests. -/
theorem advanceTrace_ready {base : Base} (h : base.Sound) (hi : base.service = .idle)
    (ticket : Ticket) {events : List Event} (hp : base.bench.passage = .ok events) :
    ∃ lines, Store.advanceTrace.run (base.store (Host.ready ticket).takers)
      = .ok () ((base.stepped lines events).store (Host.ready ticket).takers) := by
  obtain ⟨lines, hrun⟩ := Store.advanceTrace_ok (h.wired (Host.ready ticket).takers)
    (unwatched_ready base ticket) h.loaded hp
  refine ⟨lines, hrun.trans (congrArg _ ?_)⟩
  have hstore : (base.store (Host.ready ticket).takers).record
        ((base.bench.past events).logged lines) events
      = (base.stepped lines events).store (Host.ready ticket).takers := by
    obtain ⟨bench, outcomes, published, nextTicket, channel, service⟩ := base
    obtain rfl : service = .idle := hi
    rfl
  exact (congrArg _ hstore).trans (Store.deliver_of_not_awaits (not_awaits_closing _ ticket _))

/-- Steps that are processed in a row while a session rests are advances of its workbench. -/
theorem exists_advanceBy {ticket : Ticket} {count : Nat} : ∀ {base : Base} {last : Store},
    base.Sound → base.service = .idle →
      (Store.advanceTimes count).run (base.store (Host.ready ticket).takers) = .ok () last →
        ∃ reached, base.bench.advanceBy count = .ok reached := by
  induction count with
  | zero => exact fun _ _ _ => ⟨_, rfl⟩
  | succ count ih =>
    intro base last h hi hrun
    -- a step that fails would have stopped the row of advances
    cases hp : base.bench.passage with
    | error fault =>
      obtain ⟨lines, events, -, herror⟩ := Store.advanceTrace_error
        (h.wired (Host.ready ticket).takers) (unwatched_ready base ticket) h.loaded hp
      rw [Store.advanceTimes, Store.run_bind_error herror] at hrun
      cases hrun
    | ok events =>
      obtain ⟨lines, hok⟩ := advanceTrace_ready h hi ticket hp
      rw [Store.advanceTimes, Store.run_bind_ok hok] at hrun
      obtain ⟨reached, hreached⟩ := ih (h.stepped (Base.isOpen_of_idle hi) hp lines) rfl hrun
      have hcore : (base.stepped lines events).bench.core = (base.bench.past events).core := rfl
      obtain ⟨last, hlast, -⟩ := Workbench.exists_advanceBy_congr hcore hreached
      exact ⟨last, (Workbench.advanceBy_succ_of_passage hp count).trans hlast⟩

/-- If the steps of the trace are processed without a fault, they can be processed from where the
session rests. -/
theorem processable_of_processes {base : Base} {ticket : Ticket} (h : base.Sound)
    (hi : base.service = .idle) (hp : (base.rest (.ready ticket)).Processes) :
    base.bench.Processable := by
  obtain ⟨store, hrun⟩ := hp
  obtain ⟨reached, hreached⟩ := exists_advanceBy h hi hrun
  have hremaining : base.bench.recording.remaining ≤ (base.rest (.ready ticket)).traceLength :=
    Nat.sub_le _ _
  exact Workbench.processable_of_advanceBy (h.poised (Base.isOpen_of_idle hi)) hreached hremaining

/-! ### Orders -/

/-- The workbench of a trace whose steps can all be processed, before the first one. -/
structure Outset (start : Workbench) : Prop where
  poised : start.Poised
  cursor : start.recording.cursor = 0
  processable : start.Processable

/-- A session rests as many advances away from its outset as its cursor tells. -/
structure At (start : Workbench) (base : Base) (ticket : Ticket) (session : Session) : Prop where
  eq_rest : session = base.rest (.ready ticket)
  standing : base.Standing (.ready ticket)
  idle : base.service = .idle
  reached : ∃ reached, start.advanceBy base.bench.recording.cursor = .ok reached ∧
    reached.core = base.bench.core

variable {start : Workbench} {base : Base} {ticket : Ticket} {session : Session}

theorem At.bench_eq (h : At start base ticket session) : session.bench = base.bench := by
  rw [h.eq_rest]
  rfl

theorem At.cursor_eq (h : At start base ticket session) :
    session.cursor = base.bench.recording.cursor := by
  rw [cursor, h.bench_eq]

theorem At.cursor_of_core (h : At start base ticket session) {bench : Workbench}
    (hc : base.bench.core = bench.core) : session.cursor = bench.recording.cursor := by
  rw [h.cursor_eq, Workbench.recording_congr hc]

theorem At.poised (h : At start base ticket session) : base.bench.Poised :=
  h.standing.sound.poised (Base.isOpen_of_idle h.idle)

theorem At.steps (h : At start base ticket session) (hs : Outset start) :
    base.bench.recording.steps = start.recording.steps := by
  obtain ⟨reached, hreached, hcore⟩ := h.reached
  rw [← Workbench.recording_congr hcore]
  exact (hs.poised.advanceBy hreached).2.1

theorem At.processable (h : At start base ticket session) (hs : Outset start) :
    base.bench.Processable := Workbench.OnCourse.processable h.reached hs.processable

/-- Advances from where a session is lead to where the cursor tells. -/
theorem At.advanceBy (h : At start base ticket session) {count : Nat} {last : Workbench}
    (hlast : base.bench.advanceBy count = .ok last) :
    ∃ reached, start.advanceBy last.recording.cursor = .ok reached ∧ reached.core = last.core :=
  Workbench.OnCourse.advanceBy h.reached h.poised hlast

/-- An order takes a session to where its pursuit comes to an end. -/
theorem At.carryOut (h : At start base ticket session) (hs : Outset start) (order : Order) :
    ∃ pursuit blocks reached base' ticket',
      base.bench.begin order.event order.command = .ok pursuit ∧
      base.bench.Runs pursuit blocks reached none ∧
      (session.carryOut order).2 = ⟨some (.ok (.flag true)), false⟩ ∧
      At start base' ticket' (session.carryOut order).1 ∧
      Left base (.ready ticket') reached
        ([order.event, .beginStep order.command] ++ askedFor blocks
          ++ [.endStep order.command false]) base' := by
  have hprocessable := h.processable hs
  -- the command begins with a pursuit, which comes to its end and is answered
  obtain ⟨pursuit, hbegin⟩ := hprocessable.exists_begin h.poised order.event order.command
    order.breakpoints_event
  obtain ⟨blocks, reached, hruns⟩ := hprocessable.runs h.poised pursuit
  obtain ⟨base', ticket', hperform, hleft⟩ :=
    perform_runs h.standing h.idle order.event_kind hbegin hruns
  have hcarry : session.carryOut order
      = (base'.rest (.ready ticket'), ⟨some (.ok (.flag true)), false⟩) := by
    rw [Session.carryOut, h.eq_rest, hperform]
  obtain ⟨last, hlast, hcore⟩ := h.advanceBy hruns.advanceBy
  refine ⟨pursuit, blocks, reached, base', ticket', hbegin, hruns, by rw [hcarry], ?_, hleft⟩
  refine ⟨by rw [hcarry], hleft.standing, hleft.service.trans h.idle, last, ?_, ?_⟩
  · rw [Workbench.recording_congr hleft.core]
    exact hlast
  · rw [hcore, hleft.core]

/-- Orders in a row are all carried out. -/
theorem At.obey (hs : Outset start) (orders : List Order) : ∀ {base ticket session},
    At start base ticket session →
      (∃ base' ticket', At start base' ticket' (session.obey orders)) ∧
        ∀ outcome ∈ session.outcomes orders, outcome = ⟨some (.ok (.flag true)), false⟩ := by
  induction orders with
  | nil => exact fun h => ⟨⟨_, _, h⟩, fun _ ho => absurd ho List.not_mem_nil⟩
  | cons order rest ih =>
    intro base ticket session h
    obtain ⟨-, -, -, base', ticket', -, -, houtcome, hnext, -⟩ := h.carryOut hs order
    obtain ⟨hreached, hrest⟩ := ih hnext
    refine ⟨hreached, ?_⟩
    intro outcome ho
    rcases List.mem_cons.mp ho with rfl | ho
    · exact houtcome
    · exact hrest outcome ho

/-- A single advance moves the cursor by one, unless it is at the end. -/
theorem At.cursor_carryOut_advance (h : At start base ticket session) (hs : Outset start) :
    (session.carryOut .advance).1.cursor
      = min (session.cursor + 1) start.recording.steps.length := by
  obtain ⟨pursuit, blocks, reached, base', ticket', hbegin, hruns, -, hnext, hleft⟩ :=
    h.carryOut hs .advance
  obtain rfl : .single = pursuit := Except.ok.inj hbegin
  have hone : blocks.length = 1 := by
    cases hruns with
    | ended _ _ => rfl
    | on _ hm _ => cases hm
  have hadvance := hruns.advanceBy
  rw [hone] at hadvance
  obtain ⟨-, -, hcursor⟩ := h.poised.advanceBy hadvance
  rw [hnext.eq_rest, h.eq_rest]
  show base'.bench.recording.cursor = min (base.bench.recording.cursor + 1) _
  rw [Workbench.recording_congr hleft.core, hcursor, h.steps hs]

theorem At.cursor_obey_advances (hs : Outset start) (count : Nat) : ∀ {base ticket session},
    At start base ticket session →
      (session.obey (List.replicate count .advance)).cursor
        = min (session.cursor + count) start.recording.steps.length := by
  induction count with
  | zero =>
    intro base ticket session h
    have hle := base.bench.recording.cursor_le
    rw [h.steps hs] at hle
    show session.cursor = _
    rw [h.eq_rest]
    show base.bench.recording.cursor = min (base.bench.recording.cursor + 0) _
    omega
  | succ count ih =>
    intro base ticket session h
    obtain ⟨-, -, -, base', ticket', -, -, -, hnext, -⟩ := h.carryOut hs .advance
    have hcursor := h.cursor_carryOut_advance hs
    show ((session.carryOut .advance).1.obey (List.replicate count .advance)).cursor = _
    rw [ih hnext, hcursor]
    omega

/-- A session that rests before the first of some steps that can all be processed is at its
outset. -/
theorem outset_rest (h : base.Standing (.ready ticket)) (hi : base.service = .idle)
    (hc : base.bench.recording.cursor = 0) (hp : base.bench.Processable) :
    Outset base.bench ∧ At base.bench base ticket (base.rest (.ready ticket)) := by
  refine ⟨⟨h.sound.poised (Base.isOpen_of_idle hi), hc, hp⟩, rfl, h, hi, base.bench, ?_, rfl⟩
  rw [hc]
  rfl

/-- A session that has just loaded a trace whose steps are processed is at its outset. -/
theorem Loaded.outset (h : Loaded session) (hp : session.Processes) :
    ∃ start base ticket, Outset start ∧ At start base ticket session ∧ session.cursor = 0 ∧
      start.recording.steps.length = session.traceLength := by
  obtain ⟨steps, hfresh⟩ := h.fresh
  obtain ⟨base, ticket, rfl, hstanding, hidle, hcursor, hsteps⟩ := hfresh.exists_rest
  have hprocessable := processable_of_processes hstanding.sound hidle hp
  obtain ⟨hs, hat⟩ := outset_rest hstanding hidle hcursor hprocessable
  exact ⟨base.bench, base, ticket, hs, hat, hcursor, rfl⟩

/-! ### A brief trace -/

/-- The map of a contract of three instructions, the second of which jumps into a function. -/
def briefMap : ProgramMap :=
  { name := "Brief"
    sources := [⟨12, [0, 6]⟩]
    entries := [⟨0, 5, 0, .regular, 0⟩, ⟨6, 3, 0, .into, 0⟩, ⟨10, 2, 0, .regular, 0⟩]
    instructionAt := [(0, 0), (2, 1), (3, 2)] }

/-- The syntax tree of its source: one variable, declared where the third instruction stands. -/
def briefTree : SyntaxTree :=
  { index := 0
    nodes := [⟨.number 7, .str "VariableDeclaration", ⟨10, 2, 0⟩, [], []⟩] }

/-- The steps of a run of its code. -/
def briefSteps : List Step :=
  [{ pc := 0, op := "PUSH1" }, { pc := 2, op := "JUMP", stack := some ["03"] },
    { pc := 3, op := "STOP" }]

/-- A session that has loaded that run. -/
def brief : Session :=
  ((new { fallback := some ⟨briefMap, [(0, briefTree)]⟩ } none 1).perform
    (.load briefSteps none none)).1

theorem loaded_brief : Loaded brief := loaded_of_callTargets rfl _ _ _ _

theorem processes_brief : brief.Processes := by decide +kernel

end Session

end TraceDebugger
