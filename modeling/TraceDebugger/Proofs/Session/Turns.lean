/-
What each turn does to a session with a command under way.

Every turn takes one shape to another one.  The shapes with a command under way differ in the state
of the cycle, in whether it has heard an interrupt, and in the turns to come.

* `requestStep_idle`, `requestStep_over` — the pursuit asks for one more step;
* `resumeRun_on`, `resumeRun_over`, `resumeRun_failed`, `resumeRun_stopping` — the pursuit goes on,
  is over, has failed or is dropped;
* `serve_awaited`, `serve_unawaited`, `serve_stall` — the engine processes a step and the pursuit
  that waits for it has a turn again, or the engine halts and the pursuit waits on;
* `settleRace_first`, `settleRace_again` — the race is decided once;
* `resumeCycle_queued`, `resumeCycle_waiting` — the cycle drops a pursuit that is not over.
-/
import TraceDebugger.Proofs.Session.Shape

namespace TraceDebugger

/-! ### Shapes -/

/-- What becomes of the dispatcher between two commands. -/
inductive Host where
  /-- It waits for the next command. -/
  | ready (ticket : Ticket)
  /-- It has ended by a fault. -/
  | crashed (fault : Fault)

namespace Host

/-- Who waits for a command. -/
def takers : Host → List Taker
  | ready ticket => [⟨ticket, EventKind.commands⟩]
  | crashed _ => []

def status : Host → DispatcherStatus
  | ready ticket => .awaitingCommand ticket
  | crashed fault => .crashed fault

end Host

/-- A command under way. -/
structure Job where
  /-- The ticket of the caller. -/
  reply : Ticket
  cycle : Cycle
  /-- An interrupt has been published. -/
  heard : Bool := false

/-- Who waits for a step. -/
def RunStatus.takers : RunStatus → List Taker
  | waiting ticket _ => [⟨ticket, [.tock, .endOfTrace]⟩]
  | _ => []

namespace Job

/-- Who waits for an interrupt. -/
def interruptTakers (job : Job) : List Taker :=
  if job.heard then [] else [⟨job.cycle.interrupt, [.interrupt]⟩]

/-- Who waits while the command is under way. -/
def takers (job : Job) : List Taker :=
  ⟨job.reply, [.endStep]⟩ :: (job.interruptTakers ++ job.cycle.run.takers)

def withRun (job : Job) (run : RunStatus) : Job := { job with cycle := { job.cycle with run } }

def settle (job : Job) : Job := { job with cycle := { job.cycle with settled := true } }

def stop (job : Job) : Job := { job with cycle := { job.cycle with stopping := true } }

/-- The command after an interrupt. -/
def hear (job : Job) : Job := { job with heard := true }

/-- The invariant of a command under way. -/
structure Sound (job : Job) (base : Base) : Prop where
  sound : base.Sound
  reply_lt : job.reply < job.cycle.interrupt
  interrupt_lt : job.cycle.interrupt < base.nextTicket
  waits : ∀ ticket pursuit, job.cycle.run = .waiting ticket pursuit →
    job.cycle.interrupt < ticket ∧ ticket < base.nextTicket

theorem Sound.move {job : Job} {base base' : Base} (h : job.Sound base) (hs : base'.Sound)
    (hn : base.nextTicket ≤ base'.nextTicket) : job.Sound base' := by
  refine ⟨hs, h.reply_lt, Nat.lt_of_lt_of_le h.interrupt_lt hn, fun ticket pursuit hw => ?_⟩
  obtain ⟨hticket, hlt⟩ := h.waits ticket pursuit hw
  exact ⟨hticket, Nat.lt_of_lt_of_le hlt hn⟩

theorem Sound.settle {job : Job} {base : Base} (h : job.Sound base) : job.settle.Sound base :=
  ⟨h.sound, h.reply_lt, h.interrupt_lt, h.waits⟩

theorem Sound.stop {job : Job} {base : Base} (h : job.Sound base) : job.stop.Sound base :=
  ⟨h.sound, h.reply_lt, h.interrupt_lt, h.waits⟩

theorem Sound.hear {job : Job} {base : Base} (h : job.Sound base) : job.hear.Sound base :=
  ⟨h.sound, h.reply_lt, h.interrupt_lt, h.waits⟩

theorem Sound.withRun {job : Job} {base : Base} (h : job.Sound base) {run : RunStatus}
    (hr : run.takers = []) : (job.withRun run).Sound base := by
  refine ⟨h.sound, h.reply_lt, h.interrupt_lt, fun ticket pursuit hw => ?_⟩
  rw [show run = .waiting ticket pursuit from hw] at hr
  cases hr

/-- A pursuit may wait with the ticket that was given out last. -/
theorem Sound.wait {job : Job} {base base' : Base} (h : job.Sound base) (hs : base'.Sound)
    (hn : base'.nextTicket = base.nextTicket + 1) (pursuit : Pursuit) :
    (job.withRun (.waiting base.nextTicket pursuit)).Sound base' := by
  have hticket := h.interrupt_lt
  refine ⟨hs, h.reply_lt, ?_, fun ticket pursuit' hw => ?_⟩
  · rw [hn]
    exact Nat.lt_succ_of_lt hticket
  · obtain ⟨rfl, -⟩ := RunStatus.waiting.inj hw
    rw [hn]
    exact ⟨hticket, Nat.lt_succ_self _⟩

theorem Sound.reply_lt_next {job : Job} {base : Base} (h : job.Sound base) :
    job.reply < base.nextTicket := Nat.lt_trans h.reply_lt h.interrupt_lt

/-- The tickets of a command are different ones. -/
theorem Sound.ne_of_waiting {job : Job} {base : Base} (h : job.Sound base) {ticket : Ticket}
    {pursuit : Pursuit} (hw : job.cycle.run = .waiting ticket pursuit) :
    job.cycle.interrupt ≠ ticket ∧ job.reply ≠ ticket := by
  obtain ⟨hticket, -⟩ := h.waits ticket pursuit hw
  exact ⟨Nat.ne_of_lt hticket, Nat.ne_of_lt (Nat.lt_trans h.reply_lt hticket)⟩

theorem takers_of_queued {job : Job} {queued : Option Pursuit}
    (hq : job.cycle.run = .queued queued) : job.cycle.run.takers = [] := by
  rw [hq]
  rfl

theorem kinds_of_mem_takers {job : Job} {taker : Taker} (h : taker ∈ job.takers) :
    taker.kinds = [.endStep] ∨ taker.kinds = [.interrupt] ∧ job.heard = false ∨
      taker.kinds = [.tock, .endOfTrace] ∧ taker ∈ job.cycle.run.takers := by
  rcases List.mem_cons.mp h with rfl | h
  · exact .inl rfl
  rcases List.mem_append.mp h with h | h
  · -- the interrupt is waited for until it has been heard
    rw [interruptTakers] at h
    cases hr : job.heard with
    | true =>
      rw [hr] at h
      cases h
    | false =>
      rw [hr] at h
      obtain rfl := List.mem_singleton.mp h
      exact .inr (.inl ⟨rfl, rfl⟩)
  · refine .inr (.inr ⟨?_, h⟩)
    cases hrun : job.cycle.run with
    | waiting ticket pursuit =>
      rw [hrun] at h
      obtain rfl := List.mem_singleton.mp h
      rfl
    | _ => rw [hrun] at h; cases h

end Job

namespace Base

/-- A session without a command under way. -/
def calm (base : Base) (host : Host) (caller : CallerStatus) (running : Option Command)
    (turns : List Turn) : Session :=
  { store := base.store host.takers, engine := base.service.engine base.channel
    dispatcher := host.status, caller, running, turns }

/-- A session without anything to do. -/
def rest (base : Base) (host : Host) : Session := base.calm host .idle none []

/-- A session whose dispatcher has taken a command and runs no cycle. -/
def handling (base : Base) (reply : Ticket) (command : Command) (turns : List Turn) : Session :=
  { store := base.store [⟨reply, [.endStep]⟩], engine := base.service.engine base.channel
    dispatcher := .working, caller := .commanding reply false, running := some command, turns }

/-- A session with a command under way. -/
def work (base : Base) (job : Job) (turns : List Turn) : Session :=
  { store := base.store job.takers, engine := base.service.engine base.channel
    dispatcher := .working, ownCycle := some job.cycle, caller := .commanding job.reply false
    running := some job.cycle.command, turns }

end Base

namespace Session

variable {base : Base} {job : Job} {turns : List Turn}

theorem cycle?_work : (base.work job turns).cycle? .own = some job.cycle := rfl

/-! ### Pursuits -/

theorem not_next_of_mem_takers : ∀ taker ∈ job.takers, EventKind.next ∉ taker.kinds := by
  intro taker ht
  rcases Job.kinds_of_mem_takers ht with h | ⟨h, -⟩ | ⟨h, -⟩ <;> rw [h] <;> decide

theorem tell_delivered {session : Session} {channel : Ticket}
    (h : session.engine = .awaitingRequest channel) :
    session.tell (.delivered channel)
      = { session with engine := .serving channel }.later .engine := by
  rw [tell, h]
  exact if_pos rfl

theorem take_eq (session : Session) (kinds : List EventKind) :
    session.take kinds = (session.store.nextTicket, (session.take kinds).2) := rfl

theorem requestStep_of_put {session reached : Session} {lane : Lane} {pursuit : Pursuit}
    (hl : session.bench.recording.loaded = true)
    (hp : (session.take [.tock, .endOfTrace]).2.put .next = (reached, none))
    (hn : reached.store.outcome? session.store.nextTicket = none) :
    session.requestStep lane pursuit
      = reached.setRun lane (.waiting session.store.nextTicket pursuit) := by
  rw [requestStep, if_pos hl, take_eq]
  dsimp only
  rw [hp]
  dsimp only
  -- the engine has not been given a turn yet, so the request is not answered at once
  rw [hn]
  rfl

theorem store_take (hr : job.cycle.run.takers = []) (turns : List Turn) (pursuit : Pursuit) :
    ((base.work job turns).take [.tock, .endOfTrace]).2.store
      = base.ticketed.store (job.withRun (.waiting base.nextTicket pursuit)).takers := by
  have htakers : (job.withRun (.waiting base.nextTicket pursuit)).takers
      = job.takers ++ [⟨base.nextTicket, [.tock, .endOfTrace]⟩] := by
    rw [Job.takers, Job.takers, hr, List.append_nil]
    rfl
  rw [htakers]
  rfl

/-- A pursuit that does not wait asks for one more step. -/
theorem requestStep_idle (h : job.Sound base) (hi : base.service = .idle)
    (hr : job.cycle.run.takers = []) (pursuit : Pursuit) :
    (base.work job turns).requestStep .own pursuit
      = base.asked.work (job.withRun (.waiting base.nextTicket pursuit)) (turns ++ [.engine]) := by
  have hput := put_next (store_take hr turns pursuit) h.sound.order not_next_of_mem_takers hi
  have hengine : base.service.engine base.channel = .awaitingRequest base.channel := by
    rw [hi]
    rfl
  rw [tell_delivered hengine] at hput
  have hloaded : (base.work job turns).bench.recording.loaded = true := h.sound.loaded
  exact requestStep_of_put hloaded hput (h.sound.outcome?_eq_none [] (Nat.le_refl _))

/-- A request to an engine that has halted is published, and that is all. -/
theorem requestStep_over (h : job.Sound base) (ho : base.service.isOpen = false)
    (hr : job.cycle.run.takers = []) (pursuit : Pursuit) :
    (base.work job turns).requestStep .own pursuit
      = ((base.publish base.bench [.next]).ticketed).work
          (job.withRun (.waiting base.nextTicket pursuit)) turns := by
  let waiting := job.withRun (.waiting base.nextTicket pursuit)
  have hnobody : ¬ (base.ticketed.store waiting.takers).Awaits Event.next.kind := by
    rw [Base.awaits_store_iff]
    rintro (⟨taker, ht, hk⟩ | ⟨hopen, -⟩)
    · exact not_next_of_mem_takers taker ht hk
    · exact Bool.false_ne_true (ho.symm.trans hopen)
  have hput := put_silent (store_take hr turns pursuit) h.sound.order (by decide) hnobody
  have hloaded : (base.work job turns).bench.recording.loaded = true := h.sound.loaded
  exact requestStep_of_put hloaded hput (h.sound.outcome?_eq_none [] (Nat.le_refl _))

theorem finishRun_work (hr : job.cycle.run.takers = []) (fault : Option Fault) :
    (base.work job turns).finishRun .own fault
      = base.work (job.withRun (.finished fault)) (turns ++ [.race .own]) := by
  have htakers : (job.withRun (.finished fault)).takers = job.takers := by
    rw [Job.takers, Job.takers, hr]
    rfl
  rw [Base.work, Base.work, htakers]
  rfl

/-- How a pursuit goes on, or begins. -/
def resumption (bench : Workbench) (cycle : Cycle) : Option Pursuit → Except Fault (Option Pursuit)
  | none => (bench.begin cycle.event cycle.command).map some
  | some pursuit => bench.proceed pursuit

/-- Whoever has a pursuit that goes on asks for one more step. -/
theorem resumeRun_asks {session : Session} {cycle : Cycle} {queued : Option Pursuit}
    (hc : session.cycle? .own = some cycle) (hq : cycle.run = .queued queued)
    (hs : cycle.stopping = false) {more : Pursuit}
    (hm : resumption session.bench cycle queued = .ok (some more)) :
    session.resumeRun .own = session.requestStep .own more := by
  rw [resumeRun, hc]
  dsimp only
  rw [hs, hq, if_neg Bool.false_ne_true]
  cases queued with
  | none =>
    obtain ⟨pursuit, hb, hp⟩ := exists_of_map_eq_ok hm
    obtain rfl := Option.some.inj hp
    dsimp only
    rw [hb]
  | some pursuit =>
    have hproceed : session.bench.proceed pursuit = .ok (some more) := hm
    dsimp only
    rw [hproceed]

/-- A pursuit that goes on asks for one more step. -/
theorem resumeRun_on {queued : Option Pursuit} (hq : job.cycle.run = .queued queued)
    (hs : job.cycle.stopping = false) {more : Pursuit}
    (hm : resumption base.bench job.cycle queued = .ok (some more)) :
    (base.work job turns).resumeRun .own = (base.work job turns).requestStep .own more :=
  resumeRun_asks cycle?_work hq hs hm

/-- A pursuit that cannot look where it has come to is over. -/
theorem resumeRun_failed {queued : Option Pursuit} (hq : job.cycle.run = .queued queued)
    (hs : job.cycle.stopping = false) {fault : Fault}
    (hm : resumption base.bench job.cycle queued = .error fault) (turns : List Turn) :
    (base.work job turns).resumeRun .own
      = base.work (job.withRun (.finished (some fault))) (turns ++ [.race .own]) := by
  rw [← finishRun_work (Job.takers_of_queued hq), resumeRun, cycle?_work]
  dsimp only
  rw [hs, hq, if_neg Bool.false_ne_true]
  cases queued with
  | none =>
    have hbegin : (base.work job turns).bench.begin job.cycle.event job.cycle.command
        = .error fault := eq_error_of_map hm
    dsimp only
    rw [hbegin]
  | some pursuit =>
    have hproceed : (base.work job turns).bench.proceed pursuit = .error fault := hm
    dsimp only
    rw [hproceed]

theorem reportHit_eq (bench : Workbench) (pursuit : Pursuit) :
    ∃ lines, bench.reportHit pursuit = bench.logged lines := by
  cases pursuit with
  | single => exact ⟨_, rfl⟩
  | walk start purpose =>
    cases purpose with
    | toBreakpoint breakpoints =>
      rw [Workbench.reportHit]
      split <;> exact ⟨_, rfl⟩
    | _ => exact ⟨_, rfl⟩

/-- A pursuit that has come where it wanted is over. -/
theorem resumeRun_over {queued : Option Pursuit} (hq : job.cycle.run = .queued queued)
    (hs : job.cycle.stopping = false) (hm : resumption base.bench job.cycle queued = .ok none)
    (turns : List Turn) :
    ∃ lines, (base.work job turns).resumeRun .own
      = (base.on (base.bench.logged lines)).work (job.withRun (.finished none))
          (turns ++ [.race .own]) := by
  -- a pursuit asks for a step at least, so one that has not begun is not over
  cases queued with
  | none =>
    obtain ⟨pursuit, -, hp⟩ := exists_of_map_eq_ok hm
    cases hp
  | some pursuit =>
    obtain ⟨lines, hlines⟩ := reportHit_eq base.bench pursuit
    have hproceed : (base.work job turns).bench.proceed pursuit = .ok none := hm
    refine ⟨lines, ?_⟩
    rw [← finishRun_work (Job.takers_of_queued hq), ← hlines, resumeRun, cycle?_work]
    dsimp only
    rw [hs, hq, if_neg Bool.false_ne_true]
    dsimp only
    rw [hproceed]
    rfl

/-- A pursuit that is to be dropped is. -/
theorem resumeRun_stopping (hr : job.cycle.run.takers = []) (hs : job.cycle.stopping = true)
    (turns : List Turn) :
    (base.work job turns).resumeRun .own
      = base.work (job.withRun .cancelled) (turns ++ [.cycle .own]) := by
  have htakers : (job.withRun .cancelled).takers = job.takers := by
    rw [Job.takers, Job.takers, hr]
    rfl
  rw [resumeRun, cycle?_work]
  dsimp only
  rw [hs, if_pos rfl, Base.work, Base.work, htakers]
  rfl

/-! ### The engine -/

theorem fetch_busy (hb : base.service = .busy) (takers : List Taker) :
    (base.store takers).fetch base.channel = .ok (.next, (base.serves .idle).store takers) := by
  simp [Store.fetch, Store.waitingIn, Store.onChannel, Base.store, Base.serves, hb, Service.buffer,
    Service.isOpen]

/-- Nobody waits for what happens inside a step. -/
theorem unwatched_of_takers {takers : List Taker} (base : Base)
    (ht : ∀ taker ∈ takers, ∀ kind ∈ EventKind.tick :: EventKind.derived, kind ∉ taker.kinds) :
    (base.store takers).Unwatched := by
  intro kind hkind
  rw [Base.awaits_store_iff]
  rintro (⟨taker, htaker, hk⟩ | ⟨-, rfl⟩)
  · exact ht taker htaker kind hkind hk
  · exact absurd hkind (by decide)

theorem unwatched_takers (base : Base) (job : Job) : (base.store job.takers).Unwatched := by
  refine unwatched_of_takers base fun taker ht => ?_
  rcases Job.kinds_of_mem_takers ht with h | ⟨h, -⟩ | ⟨h, -⟩ <;> rw [h] <;> decide

theorem tell_taken {session : Session} {ticket : Ticket} {event : Event}
    (h : session.store.outcome? ticket = some event) :
    session.tell (.taken ticket)
      = ((((session.tellEngine ticket event).tellDispatcher ticket event).tellLane ticket
          .own).tellLane ticket .direct).tellCaller ticket := by
  rw [tell, h]

theorem tellEngine_work {session : Session} {service : Service} {channel ticket : Ticket}
    (h : session.engine = service.engine channel) (event : Event) :
    session.tellEngine ticket event = session := by
  rw [tellEngine, h]
  cases service <;> rfl

theorem tellLane_none {session : Session} {lane : Lane} (h : session.cycle? lane = none)
    (ticket : Ticket) : session.tellLane ticket lane = session := by
  rw [tellLane, h]

theorem tellCaller_idle {session : Session} (h : session.caller = .idle) (ticket : Ticket) :
    session.tellCaller ticket = session := by
  rw [tellCaller, h]

theorem tellCaller_of_ne {session : Session} {reply ticket : Ticket} {settled : Bool}
    (hc : session.caller = .commanding reply settled) (hne : reply ≠ ticket) :
    session.tellCaller ticket = session := by
  rw [tellCaller, hc]
  exact if_neg hne

/-- A session with a command under way, whatever its store. -/
structure Underway (session : Session) (cycle : Cycle) (reply : Ticket) : Prop where
  engine : ∃ service : Service, ∃ channel, session.engine = service.engine channel
  dispatcher : session.dispatcher = .working
  ownCycle : session.ownCycle = some cycle
  directCycle : session.directCycle = none
  caller : session.caller = .commanding reply false

/-- Somebody in the cycle of a command is told that an event was taken. -/
theorem tell_underway {session : Session} {cycle : Cycle} {reply ticket : Ticket} {event : Event}
    (h : session.Underway cycle reply) (ho : session.store.outcome? ticket = some event)
    (hne : reply ≠ ticket) {told : Session} (ht : session.tellLane ticket .own = told)
    (hd : told.cycle? .direct = none) (hc : told.caller = .commanding reply false) :
    session.tell (.taken ticket) = told := by
  obtain ⟨service, channel, hengine⟩ := h.engine
  have hdispatcher : session.tellDispatcher ticket event = session := by
    rw [tellDispatcher, h.dispatcher]
  rw [tell_taken ho, tellEngine_work hengine, hdispatcher, ht, tellLane_none hd,
    tellCaller_of_ne hc hne]

/-- The pursuit that waited has a turn. -/
theorem tellLane_waiting {session : Session} {cycle : Cycle} {ticket : Ticket} {pursuit : Pursuit}
    (hc : session.ownCycle = some cycle) (hb : cycle.interrupt ≠ ticket)
    (hw : cycle.run = .waiting ticket pursuit) :
    session.tellLane ticket .own
      = (session.setRun .own (.queued (some pursuit))).later (.run .own) := by
  rw [tellLane, cycle?, hc]
  dsimp only
  rw [if_neg hb, hw]
  exact if_pos rfl

theorem closing_kind (bench : Workbench) :
    bench.closing.kind ∈ [EventKind.tock, EventKind.endOfTrace] ∧ bench.closing.kind ≠ .next := by
  rw [Workbench.closing]
  split <;> decide

/-- Only the pursuit waits for the end of a step. -/
theorem mem_run_takers_of_closing {taker : Taker} (ht : taker ∈ job.takers) (bench : Workbench)
    (hk : bench.closing.kind ∈ taker.kinds) : taker ∈ job.cycle.run.takers := by
  obtain ⟨hmem, -⟩ := closing_kind bench
  rcases Job.kinds_of_mem_takers ht with h | ⟨h, -⟩ | ⟨-, h⟩
  · rw [h, List.mem_singleton] at hk
    rw [hk] at hmem
    exact absurd hmem (by decide)
  · rw [h, List.mem_singleton] at hk
    rw [hk] at hmem
    exact absurd hmem (by decide)
  · exact h

theorem serve_of_attempt {session reached : Session} {channel : Ticket} {event : Event}
    {store : Store} (he : session.engine = .serving channel)
    (hf : session.store.fetch channel = .ok (event, store))
    (ha : (session.withStore store).attempt Store.advanceTrace = (reached, none)) :
    session.serve = reached.awaitRequest channel := by
  rw [withStore, he] at ha
  rw [serve, he]
  dsimp only
  rw [hf]
  dsimp only
  rw [ha]

theorem waitingIn_idle {base : Base} (hi : base.service = .idle) (takers : List Taker) :
    (base.store takers).waitingIn base.channel = [] := by
  simp [Store.waitingIn, Base.store, hi, Service.buffer]

/-- The engine waits for the next request when there is none. -/
theorem awaitRequest_idle {session : Session} {channel : Ticket}
    (h : session.store.waitingIn channel = []) :
    session.awaitRequest channel = { session with engine := .awaitingRequest channel } := by
  rw [awaitRequest, h]
  rfl

/-- The engine processes a step for nobody. -/
theorem serve_unawaited (h : base.Sound) (hb : base.service = .busy)
    (hr : job.cycle.run.takers = []) {events : List Event} (hp : base.bench.passage = .ok events) :
    ∃ lines, (base.work job turns).serve = (base.stepped lines events).work job turns := by
  obtain ⟨lines, hrun⟩ := Store.advanceTrace_ok ((h.fetched hb).wired job.takers)
    (unwatched_takers _ job) h.loaded hp
  -- what the processing puts last is awaited only by a taker of its kind, and there is no taker
  have hnobody : ¬ ((base.stepped lines events).store job.takers).Awaits
      base.bench.closing.kind := by
    rw [Base.awaits_store_iff]
    rintro (⟨taker, ht, hk⟩ | ⟨-, hk⟩)
    · have hmem := mem_run_takers_of_closing ht base.bench hk
      rw [hr] at hmem
      cases hmem
    · exact (closing_kind base.bench).2 hk
  have hengine : (base.work job turns).engine = .serving base.channel :=
    Base.engine_of_busy hb base.channel
  have hrun' : Store.advanceTrace.run
        ((base.work job turns).withStore ((base.serves .idle).store job.takers)).store
      = .ok () ((base.stepped lines events).store job.takers) :=
    hrun.trans (congrArg _ (Store.deliver_of_not_awaits hnobody))
  refine ⟨lines, ?_⟩
  rw [serve_of_attempt hengine (fetch_busy hb job.takers) (attempt_ok hrun'), tellAll_store]
  have hidle : (base.stepped lines events).service = .idle := rfl
  exact awaitRequest_idle (waitingIn_idle hidle job.takers)

/-- The engine processes a step, and the pursuit that waits for it has a turn. -/
theorem serve_awaited (h : job.Sound base) (hb : base.service = .busy) {ticket : Ticket}
    {pursuit : Pursuit} (hw : job.cycle.run = .waiting ticket pursuit)
    {events : List Event} (hp : base.bench.passage = .ok events) :
    ∃ lines, (base.work job turns).serve
      = ((base.stepped lines events).took ticket base.bench.closing).work
          (job.withRun (.queued (some pursuit))) (turns ++ [.run .own]) := by
  obtain ⟨lines, hrun⟩ := Store.advanceTrace_ok ((h.sound.fetched hb).wired job.takers)
    (unwatched_takers _ job) h.sound.loaded hp
  have htakers : job.takers
      = (job.withRun (.queued (some pursuit))).takers ++ ⟨ticket, [.tock, .endOfTrace]⟩ :: [] := by
    rw [Job.takers, hw]
    show _ = ⟨job.reply, [.endStep]⟩ :: (job.interruptTakers ++ []) ++ _
    rw [List.append_nil]
    rfl
  have hothers : ∀ other ∈ (job.withRun (.queued (some pursuit))).takers ++ [],
      base.bench.closing.kind ∉ other.kinds := by
    intro other ho hk
    rw [List.append_nil] at ho
    exact absurd (mem_run_takers_of_closing ho base.bench hk) List.not_mem_nil
  -- the pursuit alone waits for the end of the step
  obtain ⟨hkind, hnext⟩ := closing_kind base.bench
  have hmine : base.bench.closing.kind ∈ (Taker.mk ticket [.tock, .endOfTrace]).kinds := hkind
  have hrun' : Store.advanceTrace.run
        ((base.work job turns).withStore ((base.serves .idle).store job.takers)).store
      = .ok () (((base.stepped lines events).took ticket base.bench.closing).storeTelling
          (job.withRun (.queued (some pursuit))).takers (.taken ticket)) := by
    have hdeliver : ((base.stepped lines events).store job.takers).deliver base.bench.closing
        = ((base.stepped lines events).took ticket base.bench.closing).storeTelling
            ((job.withRun (.queued (some pursuit))).takers ++ []) (.taken ticket) := by
      rw [htakers]
      exact Base.deliver_taken hmine hothers hnext
    rw [List.append_nil] at hdeliver
    exact hrun.trans (congrArg _ hdeliver)
  refine ⟨lines, ?_⟩
  have hengine : (base.work job turns).engine = .serving base.channel :=
    Base.engine_of_busy hb base.channel
  obtain ⟨hne, hreply⟩ := h.ne_of_waiting hw
  have hidle : ((base.stepped lines events).took ticket base.bench.closing).service = .idle := rfl
  let fetched := (base.work job turns).withStore ((base.serves .idle).store job.takers)
  have hunderway : (fetched.withStore (((base.stepped lines events).took ticket
      base.bench.closing).store (job.withRun (.queued (some pursuit))).takers)).Underway
        job.cycle job.reply :=
    ⟨⟨base.service, base.channel, rfl⟩, rfl, rfl, rfl, rfl⟩
  rw [serve_of_attempt hengine (fetch_busy hb job.takers) (attempt_ok hrun'), tellAll_notice,
    tell_underway hunderway (Base.outcome?_took _ _ _ _) hreply (tellLane_waiting rfl hne hw) rfl
      rfl]
  exact awaitRequest_idle (waitingIn_idle hidle _)

theorem serve_of_attempt_error {session reached : Session} {channel : Ticket} {event : Event}
    {store : Store} {fault : Fault} (he : session.engine = .serving channel)
    (hf : session.store.fetch channel = .ok (event, store))
    (ha : (session.withStore store).attempt Store.advanceTrace = (reached, some fault)) :
    session.serve = reached.halt channel fault := by
  rw [withStore, he] at ha
  rw [serve, he]
  dsimp only
  rw [hf]
  dsimp only
  rw [ha]

theorem unsubscribe_idle {base : Base} (hi : base.service = .idle) (takers : List Taker)
    (fault : Fault) :
    (base.store takers).unsubscribe base.channel = (base.serves (.halted fault)).store takers := by
  simp [Store.unsubscribe, Store.onChannel, Base.store, Base.serves, hi, Service.buffer,
    Service.isOpen]

/-- The engine halts at a step that cannot be processed; whoever waits for its end waits on. -/
theorem serve_stall (h : base.Sound) (hb : base.service = .busy) {fault : Fault}
    (hp : base.bench.passage = .error fault) :
    ∃ lines events, (∀ event ∈ events, event.Derived) ∧
      (base.work job turns).serve = (base.stalled lines events fault).work job turns := by
  obtain ⟨lines, events, hderived, hrun⟩ := Store.advanceTrace_error
    ((h.fetched hb).wired job.takers) (unwatched_takers _ job) h.loaded hp
  have hengine : (base.work job turns).engine = .serving base.channel :=
    Base.engine_of_busy hb base.channel
  -- the store is left as it was when the fault was raised, and the channel is closed
  let reached := (base.publish ((base.bench.hold.takeAll events).logged lines)
    (.tick :: events)).serves .idle
  have hrun' : Store.advanceTrace.run
        ((base.work job turns).withStore ((base.serves .idle).store job.takers)).store
      = .error fault (reached.store job.takers) := hrun
  have hidle : reached.service = .idle := rfl
  refine ⟨lines, events, hderived, ?_⟩
  rw [serve_of_attempt_error hengine (fetch_busy hb job.takers) (attempt_error hrun'),
    tellAll_store]
  show { ((base.work job turns).withStore _).withStore
    ((reached.store job.takers).unsubscribe reached.channel) with engine := .halted fault } = _
  rw [unsubscribe_idle hidle job.takers fault]
  rfl

/-! ### Cycles -/

/-- The race is decided once. -/
theorem settleRace_first (hs : job.cycle.settled = false) :
    (base.work job turns).settleRace .own
      = base.work job.settle (turns ++ [.cycle .own]) := by
  rw [settleRace, cycle?_work]
  dsimp only
  rw [hs]
  rfl

theorem settleRace_again (hs : job.cycle.settled = true) :
    (base.work job turns).settleRace .own = base.work job turns := by
  rw [settleRace, cycle?_work]
  exact if_pos hs

/-- A pursuit that has yet to take its turn will be dropped in it. -/
theorem resumeCycle_queued {queued : Option Pursuit} (hq : job.cycle.run = .queued queued) :
    (base.work job turns).resumeCycle .own
      = base.work job.stop turns := by
  rw [resumeCycle, cycle?_work]
  dsimp only
  rw [hq]
  rfl

theorem cancel_run_takers (h : job.Sound base) {ticket : Ticket} {pursuit : Pursuit}
    (hw : job.cycle.run = .waiting ticket pursuit) :
    (base.store job.takers).cancel ticket
      = base.store (job.withRun (.queued (some pursuit))).takers := by
  obtain ⟨hne, hreply⟩ := h.ne_of_waiting hw
  cases hheard : job.heard <;>
    simp [Store.cancel, Base.store, Job.takers, Job.interruptTakers, Job.withRun,
      RunStatus.takers, hw,
      hheard, hne, hreply]

/-- A pursuit that waits is given a turn in which it will be dropped. -/
theorem resumeCycle_waiting (h : job.Sound base) {ticket : Ticket} {pursuit : Pursuit}
    (hw : job.cycle.run = .waiting ticket pursuit) :
    (base.work job turns).resumeCycle .own
      = base.work (job.stop.withRun (.queued (some pursuit))) (turns ++ [.run .own]) := by
  have hcancel : (base.work job turns).store.cancel ticket = _ := cancel_run_takers h hw
  rw [resumeCycle, cycle?_work]
  dsimp only
  rw [hw]
  dsimp only
  rw [onStore, hcancel]
  rfl

end Session

end TraceDebugger
