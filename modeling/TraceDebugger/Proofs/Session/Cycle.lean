/-
How a command begins and how it ends.

* `give_ready` — a command that nothing stands in the way of reaches the dispatcher;
* `takeTurn_command` — its cycle begins;
* `resumeCycle_ok`, `resumeCycle_fault` — its cycle ends, and the dispatcher waits for the next
  command or has crashed;
* `resumeCaller_commanding` — the caller gets its answer;
* `put_interrupt_first`, `put_interrupt_again`, `put_interrupt_calm` — what an interrupt does.
-/
import TraceDebugger.Proofs.Session.Turns

namespace TraceDebugger

/-- A workbench with another command that runs and another log. -/
def Workbench.during (active : Option Command) (lines : List LogLine) (bench : Workbench) :
    Workbench :=
  { bench with active, lines }

/-- How a pursuit has ended: by a fault or not, and whether it was dropped. -/
def RunStatus.ended : RunStatus → Option (Bool × Option Fault)
  | .finished fault => some (false, fault)
  | .cancelled => some (true, none)
  | _ => none

namespace Base

theorem Sound.during {base : Base} (h : base.Sound) (active : Option Command)
    (lines : List LogLine) : (base.on (base.bench.during active lines)).Sound :=
  ⟨h.loaded, h.order, h.held, h.fresh⟩

/-- The base after the end of a command has been published and the caller has got it. -/
def closed (base : Base) (reply : Ticket) (command : Command) (interrupted : Bool) : Base :=
  (base.publish base.bench [.endStep command interrupted]).took reply (.endStep command interrupted)

theorem Sound.closed {base : Base} (h : base.Sound) {reply : Ticket} (hr : reply < base.nextTicket)
    (command : Command) (interrupted : Bool) : (base.closed reply command interrupted).Sound :=
  (h.note [.endStep command interrupted]).took hr _

theorem outcome?_closed (base : Base) (reply : Ticket) (command : Command) (interrupted : Bool) :
    ((base.closed reply command interrupted).store []).outcome? reply
      = some (.endStep command interrupted) := outcome?_took _ [] reply _

/-- What an interrupt leaves when somebody waits for it. -/
def tookInterrupt (base : Base) (interrupt : Ticket) : Base :=
  (base.publish base.bench [.interrupt]).took interrupt .interrupt

end Base

namespace Session

variable {base : Base} {job : Job} {turns : List Turn}

/-! ### The beginning -/

/-- Nothing but a warning follows when somebody hears of a command. -/
theorem quiet_reportBusy (event : Event) : Store.Quiet event .reportBusy := by
  intro bench
  refine ⟨?_, fun events hevents => ?_⟩
  · show (bench.reportBusy event).order = bench.order
    rw [Workbench.reportBusy]
    split <;> rfl
  · obtain rfl := Except.ok.inj hevents
    exact fun e he => absurd he List.not_mem_nil

/-- A command means nothing to the slices, and when none runs there is nothing to warn of. -/
theorem command_spec (ha : base.bench.active = none) {command : Command} {event : Event}
    (hk : event.kind = .command command) (takers : List Taker) :
    base.bench.slices.reduce event Session.slices = (base.bench.slices, none) ∧
      (base.store takers).hearers event.kind = [.reportBusy] ∧
      base.bench.hearing event [.reportBusy] = (base.bench, [], none) := by
  -- with its kind known, hearers and slices can be looked up
  obtain ⟨kind, payload⟩ := event
  obtain rfl : kind = .command command := hk
  let event : Event := ⟨.command command, payload⟩
  have hreact : base.bench.reportBusy event = base.bench := by
    rw [Workbench.reportBusy, ha]
  refine ⟨rfl, rfl, ?_⟩
  show ((base.bench.reportBusy event).takeAll [], [] ++ [], none) = _
  rw [hreact]
  rfl

theorem unwatched_awaiting (ticket reply : Ticket) :
    ∀ taker ∈ [Taker.mk ticket EventKind.commands, ⟨reply, [.endStep]⟩],
      ∀ kind ∈ EventKind.tick :: EventKind.derived, kind ∉ taker.kinds := by
  intro taker ht
  rcases List.mem_cons.mp ht with rfl | ht
  · exact (by decide : ∀ kind ∈ EventKind.tick :: EventKind.derived, kind ∉ EventKind.commands)
  · obtain rfl := List.mem_singleton.mp ht
    exact (by decide : ∀ kind ∈ EventKind.tick :: EventKind.derived, kind ∉ [EventKind.endStep])

/-- A command is published when none runs: the dispatcher takes it. -/
theorem put_command (ho : base.bench.order = slices) (ha : base.bench.active = none)
    {session : Session} {ticket reply : Ticket} {command : Command} {event : Event}
    (hs : session.store = base.store [⟨ticket, EventKind.commands⟩, ⟨reply, [.endStep]⟩])
    (hk : event.kind = .command command) :
    session.put event
      = ((session.withStore (((base.publish base.bench [event]).took ticket event).store
          [⟨reply, [.endStep]⟩])).tell (.taken ticket), none) := by
  let store := base.store [⟨ticket, EventKind.commands⟩, ⟨reply, [.endStep]⟩]
  have hwired : store.Wired := ⟨rfl, ho, rfl⟩
  have hunwatched : store.Unwatched := unwatched_of_takers base (unwatched_awaiting ticket reply)
  obtain ⟨hreduce, hhearers, hhear⟩ :=
    command_spec ha hk [⟨ticket, EventKind.commands⟩, ⟨reply, [.endStep]⟩]
  -- only the listener that warns of commands hears it, and it has nothing to warn of
  have hquiet : ∀ listener ∈ [Listener.reportBusy], Store.Quiet event listener := by
    intro listener hl
    obtain rfl := List.mem_singleton.mp hl
    exact quiet_reportBusy event
  obtain ⟨depth, hrunput⟩ := Store.exists_run_put event session.store
  have hrun := Store.hearAll_run depth hquiet (hwired.record base.bench [event]) hunwatched
  rw [show (store.record base.bench [event]).bench = base.bench from rfl, hhear, ← hhearers]
    at hrun
  have hmine : event.kind ∈ (Taker.mk ticket EventKind.commands).kinds := by
    rw [hk]
    exact List.mem_map_of_mem (Command.mem_all command)
  -- the dispatcher takes it, and the caller waits for something else
  have hothers : ∀ other ∈ [] ++ [Taker.mk reply [.endStep]], event.kind ∉ other.kinds := by
    intro other ho hm
    obtain rfl := List.mem_singleton.mp ho
    rw [hk] at hm
    cases List.mem_singleton.mp hm
  have hnext : event.kind ≠ .next := by
    rw [hk]
    exact fun h => by cases h
  have hdeliver : ((base.publish base.bench [event]).store
        ([] ++ ⟨ticket, EventKind.commands⟩ :: [⟨reply, [.endStep]⟩])).deliver event
      = ((base.publish base.bench [event]).took ticket event).storeTelling
          ([] ++ [⟨reply, [.endStep]⟩]) (.taken ticket) := Base.deliver_taken hmine hothers hnext
  have hput : (Store.put event).run session.store
      = .ok () (((base.publish base.bench [event]).took ticket event).storeTelling
          [⟨reply, [.endStep]⟩] (.taken ticket)) := by
    rw [hrunput, hs, Store.putWithin_ok hwired (depth + 1) hreduce rfl hrun]
    exact congrArg _ hdeliver
  rw [put, attempt_ok hput, tellAll_notice]

/-- The dispatcher that waited has a turn. -/
theorem tell_ready {session : Session} {ticket : Ticket} {event : Event}
    (he : ∃ service : Service, ∃ channel, session.engine = service.engine channel)
    (ho : session.store.outcome? ticket = some event)
    (hd : session.dispatcher = .awaitingCommand ticket) (hc : session.ownCycle = none)
    (hc' : session.directCycle = none) (hi : session.caller = .idle) :
    session.tell (.taken ticket)
      = { session with dispatcher := .working }.later (.command event) := by
  obtain ⟨service, channel, hengine⟩ := he
  have hdispatcher : session.tellDispatcher ticket event
      = { session with dispatcher := .working }.later (.command event) := by
    rw [tellDispatcher, hd]
    exact if_pos rfl
  have hown : (({ session with dispatcher := .working } : Session).later
      (.command event)).cycle? .own = none := hc
  have hdirect : (({ session with dispatcher := .working } : Session).later
      (.command event)).cycle? .direct = none := hc'
  have hidle : (({ session with dispatcher := .working } : Session).later
      (.command event)).caller = .idle := hi
  rw [tell_taken ho, tellEngine_work hengine, hdispatcher, tellLane_none hown,
    tellLane_none hdirect, tellCaller_idle hidle]

/-- The session that waits for the end of a command. -/
def awaiting (session : Session) (command : Command) : Session :=
  ({ session with running := some command }.take [.endStep]).2

theorem issue_of_put {session reached : Session} {ticket : Ticket} {command : Command}
    {event : Event}
    (hd : session.dispatcher = .awaitingCommand ticket)
    (hp : (session.awaiting command).put event = (reached, none))
    (hn : reached.store.outcome? session.store.nextTicket = none) :
    session.issue command event
      = { reached with caller := .commanding session.store.nextTicket false } := by
  have hdispatcher : (session.awaiting command).dispatcher = .awaitingCommand ticket := hd
  rw [awaiting] at hp hdispatcher
  unfold issue
  rw [take_eq]
  dsimp only
  rw [hp, hdispatcher]
  dsimp only
  -- the dispatcher has not answered yet, so the caller waits
  have hpending : ¬ (reached.store.outcome? session.store.nextTicket).isSome = true := by
    rw [hn]
    exact Bool.false_ne_true
  exact if_neg hpending

/-- Nothing stands in the way of a command while the dispatcher waits for one. -/
theorem refusal?_ready (h : base.Sound) (ha : base.bench.active = none) (ticket : Ticket)
    (command : Command) : (base.rest (.ready ticket)).refusal? command = none := by
  have hbusy : (base.rest (.ready ticket)).busyWith = none := by
    show none.or base.bench.active = none
    rw [ha]
    rfl
  have hloaded : (base.rest (.ready ticket)).bench.recording.loaded = true := h.loaded
  rw [refusal?, if_pos hloaded, hbusy]
  rfl

/-- The dispatcher takes a command before the caller waits for its end. -/
theorem put_awaiting (h : base.Sound) (ha : base.bench.active = none) (ticket : Ticket)
    {command : Command} {event : Event} (hk : event.kind = .command command) :
    ((base.rest (.ready ticket)).awaiting command).put event
      = ({ ((base.publish base.bench [event]).took ticket event).ticketed.handling base.nextTicket
            command [.command event] with caller := .idle }, none) := by
  have hstore : ((base.rest (.ready ticket)).awaiting command).store = base.ticketed.store
      [⟨ticket, EventKind.commands⟩, ⟨base.nextTicket, [.endStep]⟩] := rfl
  have horder : base.ticketed.bench.order = slices := h.order
  rw [put_command horder ha hstore hk,
    tell_ready ⟨base.service, base.channel, rfl⟩ (Base.outcome?_took _ _ _ _) rfl rfl rfl rfl]
  rfl

/-- The caller has not been told anything then. -/
theorem outcome?_awaiting (h : base.Sound) {ticket : Ticket} (ht : ticket < base.nextTicket)
    (event : Event) :
    (((base.publish base.bench [event]).took ticket event).store []).outcome? base.nextTicket
      = none := by
  have hne : ticket ≠ base.nextTicket := Nat.ne_of_lt ht
  have hnone : ((base.publish base.bench [event]).store []).outcome? base.nextTicket = none :=
    h.outcome?_eq_none [] (Nat.le_refl _)
  exact (Base.outcome?_took_of_ne _ _ hne _).trans hnone

/-- A command that nothing stands in the way of reaches the dispatcher. -/
theorem give_ready (h : base.Sound) (ha : base.bench.active = none) {ticket : Ticket}
    (ht : ticket < base.nextTicket) {command : Command} {event : Event}
    (hk : event.kind = .command command) :
    (base.rest (.ready ticket)).give command event
      = ((base.publish base.bench [event]).took ticket event).ticketed.handling base.nextTicket
          command [.command event] := by
  have hdispatcher : (base.rest (.ready ticket)).dispatcher = .awaitingCommand ticket := rfl
  rw [give, refusal?_ready h ha]
  exact issue_of_put hdispatcher (put_awaiting h ha ticket hk) (outcome?_awaiting h ht event)

/-- A dispatcher that has crashed passes its fault on. -/
theorem give_crashed (h : base.Sound) (fault : Fault) (command : Command) (event : Event) :
    (base.rest (.crashed fault)).give command event
      = base.calm (.crashed fault) (.answered (.error fault)) none [] := by
  have hrefusal : (base.rest (.crashed fault)).refusal? command = some fault := by
    have hloaded : (base.rest (.crashed fault)).bench.recording.loaded = true := h.loaded
    rw [refusal?, if_pos hloaded]
    rfl
  rw [give, hrefusal]
  rfl

/-- Nobody waits for anything but requests and the end of the command that is handled. -/
theorem put_handling (ho : base.bench.order = Session.slices) (reply : Ticket) (command : Command)
    {event : Event} (hk : event.kind ∈ signals) (he : event.kind ≠ .endStep)
    (hn : event.kind ≠ .next) :
    (base.handling reply command turns).put event
      = ((base.publish base.bench [event]).handling reply command turns, none) := by
  have hnobody : ¬ (base.store [⟨reply, [.endStep]⟩]).Awaits event.kind := by
    rw [Base.awaits_store_iff]
    rintro (⟨taker, ht, hk⟩ | ⟨-, hk⟩)
    · obtain rfl := List.mem_singleton.mp ht
      exact he (List.mem_singleton.mp hk)
    · exact hn hk
  have hstore : (base.handling reply command turns).store = base.store [⟨reply, [.endStep]⟩] := rfl
  exact put_silent hstore ho hk hnobody

/-- A command begins its cycle. -/
theorem takeTurn_command (h : base.Sound) (reply : Ticket) {command : Command} {event : Event}
    (hk : event.kind = .command command) (turns : List Turn) :
    ∃ lines, (base.handling reply command turns).takeTurn (.command event)
      = (base.publish (base.bench.during (some command) lines) [.beginStep command]).ticketed.work
          { reply, cycle := { command, event, interrupt := base.nextTicket } }
          (turns ++ [.run .own]) := by
  have hcommand : event.kind.command? = some command := by
    rw [hk]
    rfl
  obtain ⟨lines, hlog⟩ : ∃ lines, (base.handling reply command turns).log LogLevel.debug
      "controller" ("got control action " ++ event.kind.name)
        = (base.on (base.bench.logged lines)).handling reply command turns := ⟨_, rfl⟩
  have horder : (base.on (base.bench.logged lines)).bench.order = slices := h.order
  refine ⟨lines, ?_⟩
  rw [takeTurn, hlog, hcommand]
  show ((base.on (base.bench.logged lines)).handling reply command turns).beginCycle .own command
    event = _
  -- nobody waits for the beginning of a step, so that only the log and the channels know of it
  have hsignal : EventKind.beginStep ∈ signals := by decide
  have hend : EventKind.beginStep ≠ .endStep := by decide
  have hnext : EventKind.beginStep ≠ .next := by decide
  rw [beginCycle, put_handling horder reply command hsignal hend hnext]
  rfl

theorem setCycle_none (h : job.Sound base) (hr : job.cycle.run.takers = []) :
    ((base.work job turns).setCycle .own none).onStore (fun store =>
        (store.cancel job.cycle.interrupt).onBench fun bench => { bench with active := none })
      = (base.on (base.bench.during none base.bench.lines)).handling job.reply job.cycle.command
          turns := by
  have hne : job.reply ≠ job.cycle.interrupt := Nat.ne_of_lt h.reply_lt
  have hcancel : (base.store job.takers).cancel job.cycle.interrupt
      = base.store [⟨job.reply, [.endStep]⟩] := by
    cases hheard : job.heard <;>
      simp [Store.cancel, Base.store, Job.takers, Job.interruptTakers, hr, hheard, hne]
  have hstore : ((base.work job turns).setCycle .own none).store = base.store job.takers := rfl
  rw [onStore, hstore, hcancel]
  rfl

theorem put_endStep (ho : base.bench.order = Session.slices) (reply : Ticket) (command : Command)
    (interrupted : Bool) :
    (base.handling reply command turns).put (.endStep command interrupted)
      = ((base.handling reply command (turns ++ [.reply])).withStore
          ((base.closed reply command interrupted).store []), none) := by
  have hstore : (base.handling reply command turns).store
      = base.store ([] ++ ⟨reply, [.endStep]⟩ :: []) := rfl
  have hmine : (Event.endStep command interrupted).kind ∈ (Taker.mk reply [.endStep]).kinds :=
    List.mem_singleton_self _
  have hsignal : EventKind.endStep ∈ signals := by decide
  have hnext : EventKind.endStep ≠ .next := by decide
  rw [put_taken hstore ho hsignal hmine (fun _ h => absurd h List.not_mem_nil) hnext]
  refine congrArg (·, none) ?_
  rw [tell_taken (Base.outcome?_took _ _ _ _), tellEngine_work rfl]
  exact if_pos rfl

/-- The part of a cycle's end before it is published. -/
theorem endCycle_eq (h : job.Sound base) (hr : job.cycle.run.takers = []) (turns : List Turn)
    (interrupted : Bool) (fault : Option Fault) :
    ∃ lines, (base.work job turns).endCycle .own job.cycle interrupted fault
      = match ((base.on (base.bench.during none lines)).handling job.reply job.cycle.command
            turns).put (.endStep job.cycle.command interrupted), fault with
        | (session, some putFault), _ => session.leaveLane (.error putFault) .own
        | (session, none), some fault => session.leaveLane (.error fault) .own
        | (session, none), none => session.leaveLane (.ok interrupted) .own := by
  unfold endCycle
  rw [setCycle_none h hr]
  cases interrupted <;> exact ⟨_, rfl⟩

theorem resumeCycle_ended {interrupted : Bool} {fault : Option Fault}
    (he : job.cycle.run.ended = some (interrupted, fault)) (turns : List Turn) :
    job.cycle.run.takers = [] ∧ (base.work job turns).resumeCycle .own
      = (base.work job turns).endCycle .own job.cycle interrupted fault := by
  rw [resumeCycle, cycle?_work]
  dsimp only
  cases hr : job.cycle.run with
  | finished fault' =>
    rw [hr] at he
    obtain ⟨rfl, rfl⟩ := Prod.mk.inj (Option.some.inj he)
    exact ⟨rfl, rfl⟩
  | cancelled =>
    rw [hr] at he
    obtain ⟨rfl, rfl⟩ := Prod.mk.inj (Option.some.inj he)
    exact ⟨rfl, rfl⟩
  | _ => rw [hr] at he; cases he

/-- A cycle ends, and the dispatcher waits for the next command. -/
theorem resumeCycle_ok (h : job.Sound base) {interrupted : Bool}
    (he : job.cycle.run.ended = some (interrupted, none)) (turns : List Turn) :
    ∃ lines, (base.work job turns).resumeCycle .own
      = ((base.on (base.bench.during none lines)).closed job.reply job.cycle.command
            interrupted).ticketed.calm (.ready base.nextTicket) (.commanding job.reply false)
          (some job.cycle.command) (turns ++ [.reply]) := by
  obtain ⟨hr, hresume⟩ := resumeCycle_ended he turns
  obtain ⟨lines, hend⟩ := endCycle_eq h hr turns interrupted none
  have horder : (base.on (base.bench.during none lines)).bench.order = slices := h.sound.order
  rw [hresume, hend, put_endStep horder]
  exact ⟨_, rfl⟩

/-- A cycle ends by a fault, and the dispatcher with it. -/
theorem resumeCycle_fault (h : job.Sound base) {interrupted : Bool} {fault : Fault}
    (he : job.cycle.run.ended = some (interrupted, some fault)) (turns : List Turn) :
    ∃ lines, (base.work job turns).resumeCycle .own
      = ((base.on (base.bench.during none lines)).closed job.reply job.cycle.command
            interrupted).calm (.crashed fault) (.commanding job.reply false)
          (some job.cycle.command) (turns ++ [.reply] ++ [.reply]) := by
  obtain ⟨hr, hresume⟩ := resumeCycle_ended he turns
  obtain ⟨lines, hend⟩ := endCycle_eq h hr turns interrupted (some fault)
  have horder : (base.on (base.bench.during none lines)).bench.order = slices := h.sound.order
  rw [hresume, hend, put_endStep horder]
  exact ⟨_, rfl⟩

/-! ### The answer -/

/-- What the caller of a command is told. -/
def verdict (interrupted : Bool) : Host → Except Fault Reply
  | .ready _ => .ok (.flag !interrupted)
  | .crashed fault => .error fault

/-- The caller learns how the command has ended. -/
theorem resumeCaller_commanding {host : Host} {reply : Ticket} {settled : Bool}
    {running : Option Command} {command : Command} {interrupted : Bool}
    (ho : (base.store []).outcome? reply = some (.endStep command interrupted)) :
    (base.calm host (.commanding reply settled) running turns).resumeCaller
      = base.calm host (.answered (verdict interrupted host)) none turns := by
  have houtcome : (base.calm host (.commanding reply settled) running turns).store.outcome? reply
      = some (.endStep command interrupted) := ho
  show (base.calm host (.commanding reply settled) running turns).finishCommand reply = _
  cases host with
  | crashed fault => rfl
  | ready ticket =>
    rw [finishCommand]
    dsimp only
    rw [houtcome]
    rfl

/-! ### Interrupts -/

theorem not_interrupt_of_mem_takers {taker : Taker} (ht : taker ∈ job.takers)
    (hk : EventKind.interrupt ∈ taker.kinds) : job.heard = false := by
  rcases Job.kinds_of_mem_takers ht with h | ⟨-, h⟩ | ⟨h, -⟩
  · rw [h] at hk
    exact absurd hk (by decide)
  · exact h
  · rw [h] at hk
    exact absurd hk (by decide)

theorem tellLane_interrupt {session : Session} {cycle : Cycle} {ticket : Ticket}
    (hc : session.ownCycle = some cycle) (hb : cycle.interrupt = ticket)
    (hs : cycle.stopping = false) :
    session.tellLane ticket .own = session.later (.race .own) := by
  rw [tellLane, cycle?, hc]
  dsimp only
  rw [if_pos hb, hs]
  rfl

/-- A command under way that has not heard an interrupt, whatever its store is based on. -/
structure Listening (session : Session) (base : Base) (cycle : Cycle) (reply : Ticket)
    (before after : List Taker) : Prop extends session.Underway cycle reply where
  store : session.store = base.store (before ++ ⟨cycle.interrupt, [.interrupt]⟩ :: after)
  order : base.bench.order = slices
  stopping : cycle.stopping = false
  reply_ne : reply ≠ cycle.interrupt
  others : ∀ taker ∈ before ++ after, EventKind.interrupt ∉ taker.kinds

/-- The interrupt is taken, and the race will be decided. -/
theorem Listening.put_interrupt {session : Session} {cycle : Cycle} {reply : Ticket}
    {before after : List Taker} (h : session.Listening base cycle reply before after) :
    session.put .interrupt
      = ((session.withStore ((base.tookInterrupt cycle.interrupt).store (before ++ after))).later
          (.race .own),
          none) := by
  have hsignal : EventKind.interrupt ∈ signals := by decide
  have hmine : EventKind.interrupt ∈ (Taker.mk cycle.interrupt [.interrupt]).kinds :=
    List.mem_singleton_self _
  have hnext : EventKind.interrupt ≠ .next := by decide
  have hunderway : (session.withStore ((base.tookInterrupt cycle.interrupt).store
      (before ++ after))).Underway cycle reply :=
    ⟨h.engine, h.dispatcher, h.ownCycle, h.directCycle, h.caller⟩
  have hput : session.put .interrupt
      = ((session.withStore ((base.tookInterrupt cycle.interrupt).store (before ++ after))).tell
          (.taken cycle.interrupt), none) :=
    put_taken h.store h.order hsignal hmine h.others hnext
  rw [hput, tell_underway hunderway (Base.outcome?_took _ _ _ _) h.reply_ne
    (tellLane_interrupt hunderway.ownCycle rfl h.stopping) h.directCycle h.caller]

/-- The first interrupt is heard. -/
theorem put_interrupt_first (h : job.Sound base) (hr : job.heard = false)
    (hs : job.cycle.stopping = false) (turns : List Turn) :
    (base.work job turns).put .interrupt
      = (((base.publish base.bench [.interrupt]).took job.cycle.interrupt .interrupt).work job.hear
          (turns ++ [.race .own]), none) := by
  have hlistening : (base.work job turns).Listening base job.cycle job.reply
      [⟨job.reply, [.endStep]⟩] job.cycle.run.takers := by
    refine ⟨⟨⟨base.service, base.channel, rfl⟩, rfl, rfl, rfl, rfl⟩, ?_, h.sound.order, hs,
      Nat.ne_of_lt h.reply_lt, fun other ho hk => ?_⟩
    · show base.store job.takers = _
      rw [Job.takers, Job.interruptTakers, hr]
      rfl
    · -- whoever else waits would wait still if the interrupt had been heard, and so not for it
      have hhear : other ∈ job.hear.takers := ho
      cases not_interrupt_of_mem_takers hhear hk
  rw [hlistening.put_interrupt]
  rfl

/-- A further one is only published. -/
theorem put_interrupt_again (ho : base.bench.order = slices) (hr : job.heard = true)
    (turns : List Turn) :
    (base.work job turns).put .interrupt
      = ((base.publish base.bench [.interrupt]).work job turns, none) := by
  have hnobody : ¬ (base.store job.takers).Awaits EventKind.interrupt := by
    rw [Base.awaits_store_iff]
    rintro (⟨taker, ht, hk⟩ | ⟨-, hk⟩)
    · rw [not_interrupt_of_mem_takers ht hk] at hr
      cases hr
    · cases hk
  have hstore : (base.work job turns).store = base.store job.takers := rfl
  have hsignal : EventKind.interrupt ∈ signals := by decide
  exact put_silent hstore ho hsignal hnobody

/-- So is one between two commands. -/
theorem put_interrupt_calm (ho : base.bench.order = Session.slices) (host : Host)
    (caller : CallerStatus) (running : Option Command) :
    (base.calm host caller running turns).put .interrupt
      = ((base.publish base.bench [.interrupt]).calm host caller running turns, none) := by
  have hnobody : ¬ (base.store host.takers).Awaits EventKind.interrupt := by
    rw [Base.awaits_store_iff]
    rintro (⟨taker, ht, hk⟩ | ⟨-, hk⟩)
    · cases host with
      | ready ticket =>
        obtain rfl := List.mem_singleton.mp ht
        have hnone : EventKind.interrupt ∉ EventKind.commands := by decide
        exact hnone hk
      | crashed fault => cases ht
    · cases hk
  have hstore : (base.calm host caller running turns).store = base.store host.takers := rfl
  have hsignal : EventKind.interrupt ∈ signals := by decide
  exact put_silent hstore ho hsignal hnobody

end Session

end TraceDebugger
