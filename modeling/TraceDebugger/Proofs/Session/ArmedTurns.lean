/-
The turns of sessions whose listeners publish interrupts.

* `differsBy_takeTurn` — a session with tripwires takes every turn of a command under way like the
  one without them, after an interrupt at most;
* `differsBy_step` — so all its steps are steps of the other one;
* `differsBy_give`, `differsBy_interrupt` — commands and interrupts from outside do the same to
  both.
-/
import TraceDebugger.Proofs.Session.Tripwires

namespace TraceDebugger.Session

variable {session : Session} {base : Base} {job : Job} {turns : List Turn} {event : Event}
  {arming : Arming}

theorem DiffersBy.map (act : Session → Session) {delivered : Bool} {armed : Session}
    (h : DiffersBy arming delivered session armed)
    (harmedBy : ∀ after, act (session.armedBy after) = (act session).armedBy after)
    (hp : (act session).store.published = session.store.published) :
    DiffersBy arming delivered (act session) (act armed) := by
  obtain ⟨after, hprecedes, hdelivered, hsuits, rfl⟩ := h
  exact ⟨after, hprecedes, hdelivered, ⟨hsuits.interrupts, hp ▸ hsuits.published⟩, harmedBy after⟩

theorem DiffersBy.refl (hs : arming.Suits session.store) (hr : arming.delivered = false) :
    DiffersBy arming false session (session.armedBy arming) :=
  ⟨arming, .refl _, hr, hs, rfl⟩

/-- Tripwires that are set off by a signal of a session publish their interrupts before it is
delivered. -/
theorem publishesUnder_signal (hk : event.kind ∈ signals) {base' : Base}
    {takers : List Taker} (hb : base'.bench = base.bench) (h : (base'.store takers).OfSession)
    (bound : Nat) :
    Store.PublishesUnder bound (Store.put event) (base'.store takers)
      ((base'.store takers).record base.bench [event]) event := by
  obtain ⟨hreduce, hhearers⟩ := signal_spec hk base' takers
  have hquiet : ∀ l ∈ (base'.store takers).hearers event.kind, Store.Quiet event l := by
    rw [hhearers]
    exact fun _ hm => absurd hm List.not_mem_nil
  have hhear : base'.bench.hearing event ((base'.store takers).hearers event.kind)
      = (base'.bench, [], none) := by
    rw [hhearers]
    rfl
  rw [← hb]
  exact Store.publishesUnder_put h hreduce hquiet hhear rfl bound

/-- What an interrupt makes of a command under way, if there is one. -/
structure AfterInterrupt (base : Base) (job : Job) (base' : Base) (job' : Job) : Prop where
  sound : job'.Sound base'
  bench : base'.bench = base.bench
  service : base'.service = base.service
  nextTicket : base'.nextTicket = base.nextTicket
  channel : base'.channel = base.channel
  cycle : job'.cycle = job.cycle

theorem exists_interruptIf (h : job.Sound base)
    (hs : job.heard = false → job.cycle.stopping = false)
    {delivered : Bool} (hdelivered : delivered = true → job.heard = false) (turns : List Turn) :
    ∃ base' job' more,
      (base.work job turns).interruptIf delivered = base'.work job' (turns ++ more) ∧
      AfterInterrupt base job base' job' := by
  cases delivered with
  | false =>
    refine ⟨base, job, [], ?_, h, rfl, rfl, rfl, rfl, rfl⟩
    rw [List.append_nil]
    rfl
  | true =>
    have hheard := hdelivered rfl
    let heard := (base.publish base.bench [.interrupt]).took job.cycle.interrupt .interrupt
    have hsound : heard.Sound := (h.sound.note [.interrupt]).took h.interrupt_lt .interrupt
    exact ⟨heard, job.hear, [.race .own],
      congrArg Prod.fst (put_interrupt_first h hheard (hs hheard) turns),
      (h.move hsound (Nat.le_refl _)).hear, rfl, rfl, rfl, rfl, rfl⟩

/-! ### The pursuit -/

theorem carries_take (h : job.Sound base) (hs : job.cycle.stopping = false)
    (hr : job.cycle.run.takers = []) (turns : List Turn) (pursuit : Pursuit) :
    ((base.work job turns).take [.tock, .endOfTrace]).2.Carries base.ticketed job.cycle
      (job.withRun (.waiting base.nextTicket pursuit)) :=
  ⟨⟨⟨base.service, base.channel, rfl⟩, rfl, rfl, rfl, rfl⟩, store_take hr turns pursuit,
    h.wait h.sound.ticketed rfl pursuit, rfl, fun _ => hs⟩

/-- Whether an interrupt comes before or after a ticket is given out makes no difference. -/
theorem interruptIf_take (h : job.Sound base) (hs : job.cycle.stopping = false)
    (hr : job.cycle.run.takers = []) {delivered : Bool}
    (hdelivered : delivered = true → job.heard = false) :
    ((base.work job turns).take [.tock, .endOfTrace]).2.interruptIf delivered
      = (((base.work job turns).interruptIf delivered).take [.tock, .endOfTrace]).2 := by
  cases delivered with
  | false => rfl
  | true =>
    have hheard := hdelivered rfl
    have hfirst := ((carries_take h hs hr turns .single).listening hheard).put_interrupt
    have htakers : job.hear.takers = [⟨job.reply, [.endStep]⟩] := by
      rw [Job.takers]
      show _ :: ([] ++ job.cycle.run.takers) = _
      rw [hr]
      rfl
    rw [interruptIf, interruptIf, if_pos rfl, if_pos rfl, hfirst, put_interrupt_first h hheard hs]
    conv_rhs => rw [Base.work, htakers]
    rfl

/-- A step that has just been asked for has not been processed. -/
theorem outcome?_of_put_next (h : job.Sound base) (hi : base.service = .idle)
    (hr : job.cycle.run.takers = []) {reached : Session}
    (hp : ((base.work job turns).take [.tock, .endOfTrace]).2.put .next = (reached, none)) :
    reached.store.outcome? base.nextTicket = none := by
  have hput := put_next (store_take hr turns .single) h.sound.order not_next_of_mem_takers hi
  have hengine : base.service.engine base.channel = .awaitingRequest base.channel := by
    rw [hi]
    rfl
  rw [tell_delivered hengine] at hput
  obtain rfl := (Prod.mk.inj (hput.symm.trans hp)).1
  exact h.sound.outcome?_eq_none [] (Nat.le_refl _)

/-- A pursuit asks for one more step. -/
theorem differsBy_requestStep (h : job.Sound base) (hs : job.cycle.stopping = false)
    (hi : base.service = .idle) (hr : job.cycle.run.takers = []) (pursuit : Pursuit)
    (hsuits : arming.Suits (base.work job turns).store) (harming : arming.delivered = false) :
    ∃ delivered, (delivered = true → job.heard = false) ∧
      DiffersBy arming delivered
        (((base.work job turns).interruptIf delivered).requestStep .own pursuit)
        (((base.work job turns).armedBy arming).requestStep .own pursuit) := by
  have hcarries := carries_take h hs hr turns pursuit
  have hp {base' : Base} {takers : List Taker} : base'.bench = base.ticketed.bench →
      (base'.store takers).OfSession → ∀ bound, Store.PublishesUnder bound (Store.put .next)
        (base'.store takers) ((base'.store takers).record base.ticketed.bench [.next]) .next :=
    publishesUnder_signal (by decide)
  have hticket : ∀ taker ∈ (job.withRun (.waiting base.nextTicket pursuit)).takers,
      EventKind.next ∈ taker.kinds → taker.ticket ≠ job.cycle.interrupt :=
    fun taker ht hk => absurd hk (not_next_of_mem_takers taker ht)
  obtain ⟨delivered, reached, armed, hheard, hreached, harmed, hdiffersBy⟩ :=
    hcarries.attempt_armedBy hp hticket ⟨hsuits.interrupts, hsuits.published⟩ harming
  rw [interruptIf_take h hs hr hheard] at hreached
  obtain ⟨base', job', more, hinterruptIf, hdelivered⟩ :=
    exists_interruptIf h (fun _ => hs) hheard turns
  have hloaded : (base'.work job' (turns ++ more)).bench.recording.loaded = true :=
    hdelivered.sound.sound.loaded
  have hidle : base'.service = .idle := hdelivered.service.trans hi
  have htakers : job'.cycle.run.takers = [] := by
    rw [hdelivered.cycle]
    exact hr
  -- the engine has not been given a turn yet, with or without tripwires
  have hnone : reached.store.outcome? base.nextTicket = none := by
    rw [hinterruptIf] at hreached
    rw [← hdelivered.nextTicket]
    exact outcome?_of_put_next hdelivered.sound hidle htakers hreached
  have hreach : ((base.work job turns).interruptIf delivered).requestStep .own pursuit
      = reached.setRun .own (.waiting base.nextTicket pursuit) := by
    rw [hinterruptIf] at hreached ⊢
    rw [← hdelivered.nextTicket] at hnone ⊢
    exact requestStep_of_put hloaded hreached hnone
  have harmedBy : ((base.work job turns).armedBy arming).requestStep .own pursuit
      = armed.setRun .own (.waiting base.nextTicket pursuit) := by
    have hloaded' : ((base.work job turns).armedBy arming).bench.recording.loaded = true :=
      h.sound.loaded
    refine requestStep_of_put hloaded' harmed ?_
    obtain ⟨after, -, -, -, rfl⟩ := hdiffersBy
    exact hnone
  refine ⟨delivered, hheard, ?_⟩
  rw [hreach, harmedBy]
  exact hdiffersBy.map (setRun .own (.waiting base.nextTicket pursuit)) (fun _ => rfl) rfl

/-! ### The engine -/

theorem fetch_withTripwires {store fetched : Store} {ticket : Ticket}
    (hf : store.fetch ticket = .ok (event, fetched)) (arming : Arming) :
    (store.withTripwires arming).fetch ticket = .ok (event, fetched.withTripwires arming) := by
  have hwaiting : (store.withTripwires arming).waitingIn ticket = store.waitingIn ticket := rfl
  rw [Store.fetch] at hf ⊢
  rw [hwaiting]
  cases hw : store.waitingIn ticket with
  | nil =>
    rw [hw] at hf
    cases hf
  | cons first rest =>
    rw [hw] at hf
    obtain ⟨rfl, rfl⟩ := Prod.mk.inj (Except.ok.inj hf)
    rfl

theorem awaitRequest_armedBy (session : Session) (channel : Ticket) (arming : Arming) :
    (session.armedBy arming).awaitRequest channel =
      (session.awaitRequest channel).armedBy arming := by
  have hwaiting :
      (session.armedBy arming).store.waitingIn channel = session.store.waitingIn channel :=
    rfl
  rw [awaitRequest, awaitRequest, hwaiting]
  split <;> rfl

theorem published_awaitRequest (session : Session) (channel : Ticket) :
    (session.awaitRequest channel).store.published = session.store.published := by
  rw [awaitRequest]
  split <;> rfl

/-- The engine fetches its request, whether an interrupt comes before or after. -/
theorem interruptIf_fetched (h : job.Sound base)
    (hs : job.heard = false → job.cycle.stopping = false)
    (hb : base.service = .busy) {delivered : Bool}
    (hdelivered : delivered = true → job.heard = false)
    (turns : List Turn) :
    ∃ store, ((base.work job turns).interruptIf delivered).engine = .serving base.channel ∧
      ((base.work job turns).interruptIf delivered).store.fetch base.channel = .ok (.next, store) ∧
      ((base.work job turns).withStore ((base.serves .idle).store job.takers)).interruptIf delivered
        = ((base.work job turns).interruptIf delivered).withStore store := by
  have hengine := Base.engine_of_busy hb base.channel
  cases delivered with
  | false => exact ⟨_, hengine, fetch_busy hb job.takers, rfl⟩
  | true =>
    have hheard := hdelivered rfl
    let heard := (base.publish base.bench [.interrupt]).took job.cycle.interrupt .interrupt
    have hbusy : heard.service = .busy := hb
    have hfetched : ((base.work job turns).withStore ((base.serves .idle).store job.takers)).Carries
        (base.serves .idle) job.cycle job :=
      ⟨⟨⟨base.service, base.channel, rfl⟩, rfl, rfl, rfl, rfl⟩, rfl,
        h.move (h.sound.fetched hb) (Nat.le_refl _), rfl, hs⟩
    refine ⟨(heard.serves .idle).store job.hear.takers, ?_, ?_, ?_⟩
    -- the delivery of the interrupt fills no channel, so the same request is fetched
    · rw [interruptIf, if_pos rfl, put_interrupt_first h hheard (hs hheard)]
      exact hengine
    · rw [interruptIf, if_pos rfl, put_interrupt_first h hheard (hs hheard)]
      exact fetch_busy hbusy job.hear.takers
    · rw [interruptIf, interruptIf, if_pos rfl, if_pos rfl,
        put_interrupt_first h hheard (hs hheard),
        (hfetched.listening hheard).put_interrupt]
      rfl

/-- Only the pursuit waits for the end of a step, and its ticket is not that of the interrupt. -/
theorem ne_interrupt_of_closing (h : job.Sound base) (bench : Workbench) :
    ∀ taker ∈ job.takers, bench.closing.kind ∈ taker.kinds →
      taker.ticket ≠ job.cycle.interrupt := by
  intro taker ht hk
  have hmem := mem_run_takers_of_closing ht bench hk
  cases hrun : job.cycle.run with
  | waiting ticket pursuit =>
    rw [hrun] at hmem
    obtain rfl := List.mem_singleton.mp hmem
    exact fun heq => (h.ne_of_waiting hrun).1 heq.symm
  | _ => rw [hrun] at hmem; cases hmem

/-- The engine processes a step. -/
theorem differsBy_serve (h : job.Sound base) (hs : job.heard = false → job.cycle.stopping = false)
    (hb : base.service = .busy) {events : List Event} (hpassage : base.bench.passage = .ok events)
    (hsuits : arming.Suits (base.work job turns).store) (harming : arming.delivered = false) :
    ∃ delivered, (delivered = true → job.heard = false) ∧
      DiffersBy arming delivered ((base.work job turns).interruptIf delivered).serve
        ((base.work job turns).armedBy arming).serve := by
  let fetched := (base.work job turns).withStore ((base.serves .idle).store job.takers)
  have hcarries : fetched.Carries (base.serves .idle) job.cycle job :=
    ⟨⟨⟨base.service, base.channel, rfl⟩, rfl, rfl, rfl, rfl⟩, rfl,
      h.move (h.sound.fetched hb) (Nat.le_refl _), rfl, hs⟩
  obtain ⟨lines, hadvance⟩ := Store.publishesUnder_advanceTrace h.sound.loaded hpassage
  have hp {base' : Base} {takers : List Taker} (hbench : base'.bench = (base.serves .idle).bench)
      (hplain : (base'.store takers).OfSession) (bound : Nat) :=
    hadvance (show (base'.store takers).bench = base.bench from hbench) hplain bound
  obtain ⟨delivered, reached, armed, hheard, hreached, harmed, hdiffersBy⟩ :=
    hcarries.attempt_armedBy hp (ne_interrupt_of_closing h base.bench)
      ⟨hsuits.interrupts, hsuits.published⟩ harming
  -- the interrupt came after the request was fetched; it might as well have come before
  obtain ⟨store, hengine, hfetch, hinterruptIf⟩ := interruptIf_fetched h hs hb hheard turns
  rw [hinterruptIf] at hreached
  have hfetch' : ((base.work job turns).armedBy arming).store.fetch base.channel
      = .ok (.next, ((base.serves .idle).store job.takers).withTripwires arming) :=
    fetch_withTripwires (fetch_busy hb job.takers) arming
  have hengine' : ((base.work job turns).armedBy arming).engine = .serving base.channel :=
    Base.engine_of_busy hb base.channel
  refine ⟨delivered, hheard, ?_⟩
  rw [serve_of_attempt hengine hfetch hreached, serve_of_attempt hengine' hfetch' harmed]
  exact hdiffersBy.map (awaitRequest base.channel) (fun after => awaitRequest_armedBy _ _ after)
    (published_awaitRequest _ _)

/-! ### Turns that publish nothing -/

/-- A pursuit that asks for no step goes on. -/
theorem resumeRun_armedBy {queued : Option Pursuit} (hq : job.cycle.run = .queued queued)
    (hn : job.cycle.stopping = true ∨
      ∀ more, resumption base.bench job.cycle queued ≠ .ok (some more)) (arming : Arming) :
    ((base.work job turns).armedBy arming).resumeRun .own
      = ((base.work job turns).resumeRun .own).armedBy arming := by
  have hcycle : ((base.work job turns).armedBy arming).cycle? .own = some job.cycle := rfl
  rw [resumeRun, resumeRun, hcycle, cycle?_work]
  dsimp only
  cases hs : job.cycle.stopping with
  | true => rfl
  | false =>
    have hstay := hn.resolve_left (by rw [hs]; exact Bool.false_ne_true)
    rw [hq, if_neg Bool.false_ne_true, if_neg Bool.false_ne_true]
    -- an arming is no part of the workbench, and what comes next depends on the workbench alone
    have hbench : ((base.work job turns).armedBy arming).bench = base.bench := rfl
    have hbench' : (base.work job turns).bench = base.bench := rfl
    rw [hbench, hbench']
    cases queued with
    | none =>
      dsimp only
      cases hb : base.bench.begin job.cycle.event job.cycle.command with
      | error fault => rfl
      | ok pursuit =>
        refine absurd ?_ (hstay pursuit)
        rw [resumption, hb]
        rfl
    | some pursuit =>
      dsimp only
      cases hp : base.bench.proceed pursuit with
      | error fault => rfl
      | ok next =>
        cases next with
        | none => rfl
        | some more => exact absurd hp (hstay more)

theorem settleRace_armedBy (session : Session) (arming : Arming) :
    (session.armedBy arming).settleRace .own = (session.settleRace .own).armedBy arming := by
  have hcycle : (session.armedBy arming).cycle? .own = session.cycle? .own := rfl
  rw [settleRace, settleRace, hcycle]
  cases session.cycle? .own with
  | none => rfl
  | some cycle =>
    dsimp only
    split <;> rfl

theorem settleReply_armedBy (session : Session) (arming : Arming) :
    (session.armedBy arming).settleReply = session.settleReply.armedBy arming := by
  have hcaller : (session.armedBy arming).caller = session.caller := rfl
  rw [settleReply, settleReply, hcaller]
  cases session.caller with
  | commanding ticket settled => cases settled <;> rfl
  | _ => rfl

theorem finishCommand_armedBy (session : Session) (ticket : Ticket) (arming : Arming) :
    (session.armedBy arming).finishCommand ticket =
      (session.finishCommand ticket).armedBy arming := by
  have hdispatcher : (session.armedBy arming).dispatcher = session.dispatcher := rfl
  have houtcome : (session.armedBy arming).store.outcome? ticket = session.store.outcome? ticket :=
    rfl
  rw [finishCommand, finishCommand]
  dsimp only
  rw [hdispatcher, houtcome]
  cases session.dispatcher <;> cases session.store.outcome? ticket <;> rfl

theorem published_finishCommand (session : Session) (ticket : Ticket) :
    (session.finishCommand ticket).store.published = session.store.published := by
  rw [finishCommand]
  dsimp only
  cases session.dispatcher <;> cases session.store.outcome? ticket <;> rfl

/-! ### Beginnings and ends -/

/-- A signal that only the caller could wait for. -/
theorem put_handling_armedBy (h : base.Sound) (reply : Ticket) (command : Command)
    (hk : event.kind ∈ signals)
    (hs : arming.Suits (base.handling reply command turns).store) (hr : arming.delivered = false) :
    ∃ reached armed, (base.handling reply command turns).put event = (reached, none) ∧
      ((base.handling reply command turns).armedBy arming).put event = (armed, none) ∧
      DiffersBy arming false reached armed := by
  have hplain : (base.store [⟨reply, [.endStep]⟩]).OfSession := by
    refine ofSession_store h.order fun taker ht => ?_
    obtain rfl := List.mem_singleton.mp ht
    exact (by decide : ∀ kind ∈ EventKind.tick :: EventKind.derived, kind ∉ [EventKind.endStep])
  have hnobody : ¬ ((base.store [⟨reply, [.endStep]⟩]).record base.bench [event]).Awaits
      EventKind.interrupt := by
    intro ha
    have ha' : (base.store [⟨reply, [.endStep]⟩]).Awaits EventKind.interrupt := ha
    rw [Base.awaits_store_iff] at ha'
    rcases ha' with ⟨taker, ht, hk⟩ | ⟨-, hk⟩
    · obtain rfl := List.mem_singleton.mp ht
      cases List.mem_singleton.mp hk
    · cases hk
  exact attempt_armedBy_of_not_awaits (publishesUnder_signal hk rfl hplain) rfl hnobody hs hr

/-- A session whose cycle ends, before that is published. -/
def closeCycle (cycle : Cycle) (interrupted : Bool) (session : Session) : Session :=
  let session := session.setCycle .own none |>.onStore fun store =>
    (store.cancel cycle.interrupt).onBench fun bench => { bench with active := none }
  if interrupted then
    session.log LogLevel.info "controller"
      s!"{cycle.command.name} interrupted at step {session.bench.recording.cursor}"
  else session

theorem closeCycle_armedBy (cycle : Cycle) (interrupted : Bool) (session : Session)
    (arming : Arming) :
    (session.armedBy arming).closeCycle cycle interrupted
      = (session.closeCycle cycle interrupted).armedBy arming := by
  cases interrupted <;> rfl

theorem closeCycle_work (h : job.Sound base) (hr : job.cycle.run.takers = []) (turns : List Turn)
    (interrupted : Bool) :
    ∃ lines, (base.work job turns).closeCycle job.cycle interrupted
      = (base.on (base.bench.during none lines)).handling job.reply job.cycle.command turns := by
  rw [closeCycle, setCycle_none h hr]
  cases interrupted <;> exact ⟨_, rfl⟩

theorem endCycle_of_put {cycle : Cycle} {interrupted : Bool} {reached : Session}
    (h : (session.closeCycle cycle interrupted).put (.endStep cycle.command interrupted)
      = (reached, none)) :
    session.endCycle .own cycle interrupted none = reached.awaitCommand := by
  simp only [closeCycle] at h
  simp only [endCycle, h]
  rfl

/-- The end of a cycle is published. -/
theorem differsBy_endCycle (h : job.Sound base) (htakers : job.cycle.run.takers = [])
    (interrupted : Bool) (hs : arming.Suits (base.work job turns).store)
    (hr : arming.delivered = false) :
    DiffersBy arming false ((base.work job turns).endCycle .own job.cycle interrupted none)
      (((base.work job turns).armedBy arming).endCycle .own job.cycle interrupted none) := by
  obtain ⟨lines, hclose⟩ := closeCycle_work h htakers turns interrupted
  have hsignal : EventKind.endStep ∈ signals := by decide
  obtain ⟨reached, armed, hreached, harmed, hdiffersBy⟩ : ∃ reached armed,
      ((base.work job turns).closeCycle job.cycle interrupted).put
        (.endStep job.cycle.command interrupted) = (reached, none) ∧
      (((base.work job turns).closeCycle job.cycle interrupted).armedBy arming).put
        (.endStep job.cycle.command interrupted) = (armed, none) ∧
      DiffersBy arming false reached armed := by
    rw [hclose]
    exact put_handling_armedBy (h.sound.during none lines) _ _ hsignal
      ⟨hs.interrupts, hs.published⟩ hr
  rw [← closeCycle_armedBy] at harmed
  rw [endCycle_of_put hreached, endCycle_of_put harmed]
  exact hdiffersBy.map awaitCommand (fun _ => rfl) rfl

/-- The beginning of a cycle is published. -/
theorem differsBy_beginCycle (h : base.Sound) (reply : Ticket) {command : Command}
    (hs : arming.Suits (base.handling reply command turns).store) (hr : arming.delivered = false) :
    DiffersBy arming false ((base.handling reply command turns).beginCycle .own command event)
      (((base.handling reply command turns).armedBy arming).beginCycle .own command event) := by
  have hsignal : EventKind.beginStep ∈ signals := by decide
  obtain ⟨reached, armed, hreached, harmed, hdiffersBy⟩ : ∃ reached armed,
      (base.handling reply command turns).put (.beginStep command) = (reached, none) ∧
      ((base.handling reply command turns).armedBy arming).put (.beginStep command) =
        (armed, none) ∧
      DiffersBy arming false reached armed := put_handling_armedBy h reply command hsignal hs hr
  rw [beginCycle, beginCycle, hreached, harmed]
  let begin (session : Session) : Session :=
    let session := session.onStore fun store =>
      store.onBench fun bench => { bench with active := some command }
    ((session.take [.interrupt]).2.setCycle .own
      (some { command, event, interrupt := session.store.nextTicket })).later (.run .own)
  exact hdiffersBy.map begin (fun _ => rfl) rfl

/-! ### Turns -/

theorem resumeCycle_armedBy_ended {interrupted : Bool} {fault : Option Fault}
    (he : job.cycle.run.ended = some (interrupted, fault)) (arming : Arming) :
    ((base.work job turns).armedBy arming).resumeCycle .own
      = ((base.work job turns).armedBy arming).endCycle .own job.cycle interrupted fault := by
  have hcycle : ((base.work job turns).armedBy arming).cycle? .own = some job.cycle := rfl
  rw [resumeCycle, hcycle]
  dsimp only
  cases hr : job.cycle.run with
  | finished fault' =>
    rw [hr] at he
    obtain ⟨rfl, rfl⟩ := Prod.mk.inj (Option.some.inj he)
    rfl
  | cancelled =>
    rw [hr] at he
    obtain ⟨rfl, rfl⟩ := Prod.mk.inj (Option.some.inj he)
    rfl
  | _ => rw [hr] at he; cases he

/-- A cycle that finds its pursuit on the way dooms it. -/
theorem resumeCycle_armedBy (he : job.cycle.run.ended = none) (arming : Arming) :
    ((base.work job turns).armedBy arming).resumeCycle .own
      = ((base.work job turns).resumeCycle .own).armedBy arming := by
  have hcycle : ((base.work job turns).armedBy arming).cycle? .own = some job.cycle := rfl
  rw [resumeCycle, resumeCycle, hcycle, cycle?_work]
  dsimp only
  cases hr : job.cycle.run with
  | finished => rw [hr] at he; cases he
  | cancelled => rw [hr] at he; cases he
  | _ => rfl

/-- **A session with tripwires takes every turn of a command under way as the session without them
does, after the interrupt that is published inside, if any.** -/
theorem differsBy_takeTurn (h : job.Sound base) {turn : Turn}
    (ht : Turned base job turns turn ((base.work job turns).takeTurn turn))
    (hquiet : job.heard = false → job.cycle.stopping = false) (ho : base.service.isOpen = true)
    (hpassage : ∃ events, base.bench.passage = .ok events)
    (hf : ∀ fault, job.cycle.run ≠ .finished (some fault))
    (hs : arming.Suits (base.work job turns).store) (hr : arming.delivered = false) :
    ∃ delivered, (delivered = true → job.heard = false) ∧
      DiffersBy arming delivered (((base.work job turns).interruptIf delivered).takeTurn turn)
        (((base.work job turns).armedBy arming).takeTurn turn) := by
  -- a turn that publishes nothing is taken by both alike
  have hsilent (harmedBy : ∀ after, ((base.work job turns).armedBy after).takeTurn turn
        = ((base.work job turns).takeTurn turn).armedBy after)
      (hp : ((base.work job turns).takeTurn turn).store.published = base.published) :
      ∃ delivered, (delivered = true → job.heard = false) ∧
        DiffersBy arming delivered (((base.work job turns).interruptIf delivered).takeTurn turn)
          (((base.work job turns).armedBy arming).takeTurn turn) :=
    ⟨false, fun hdelivered => absurd hdelivered Bool.false_ne_true,
      (DiffersBy.refl hs hr).map (fun session => session.takeTurn turn) harmedBy hp⟩
  generalize hnext : (base.work job turns).takeTurn turn = next at ht
  cases ht with
  | @asks queued more hq hstop hi hm =>
    -- a tripwire may hear the request, and its interrupt is one before the turn
    obtain ⟨delivered, hheard, hdiffersBy⟩ :=
      differsBy_requestStep h hstop hi (Job.takers_of_queued hq) more hs hr
    obtain ⟨base', job', later, hinterruptIf, hdelivered⟩ :=
      exists_interruptIf h hquiet hheard turns
    have hresume : ((base.work job turns).interruptIf delivered).resumeRun .own
        = ((base.work job turns).interruptIf delivered).requestStep .own more := by
      have hq' : job'.cycle.run = .queued queued := by rw [hdelivered.cycle, hq]
      have hm' : resumption base'.bench job'.cycle queued = .ok (some more) := by
        rw [hdelivered.cycle, hdelivered.bench, hm]
      rw [hinterruptIf]
      exact resumeRun_asks cycle?_work hq' (by rw [hdelivered.cycle, hstop]) hm'
    have harmed : ((base.work job turns).armedBy arming).resumeRun .own
        = ((base.work job turns).armedBy arming).requestStep .own more :=
      resumeRun_asks rfl hq hstop hm
    refine ⟨delivered, hheard, ?_⟩
    show DiffersBy arming delivered (((base.work job turns).interruptIf delivered).resumeRun .own)
      (((base.work job turns).armedBy arming).resumeRun .own)
    rw [hresume, harmed]
    exact hdiffersBy
  | loses _ _ hclosed => exact absurd (hclosed.symm.trans ho) Bool.false_ne_true
  -- the other turns of the pursuit ask for no step
  | arrives hq _ _ hm =>
    have hstay : ∀ more, resumption base.bench job.cycle _ ≠ .ok (some more) := fun more hmore => by
      cases hm.symm.trans hmore
    exact hsilent (fun after => resumeRun_armedBy hq (.inr hstay) after) (by rw [hnext]; rfl)
  | fails hq _ _ hm =>
    have hstay : ∀ more, resumption base.bench job.cycle _ ≠ .ok (some more) := fun more hmore => by
      cases hm.symm.trans hmore
    exact hsilent (fun after => resumeRun_armedBy hq (.inr hstay) after) (by rw [hnext]; rfl)
  | drops hq hstop =>
    exact hsilent (fun after => resumeRun_armedBy hq (.inl hstop) after) (by rw [hnext]; rfl)
  | serves _ _ hb hp => exact differsBy_serve h hquiet hb hp hs hr
  | servesLast _ _ _ hb hp => exact differsBy_serve h hquiet hb hp hs hr
  | halts _ hp =>
    obtain ⟨events, hok⟩ := hpassage
    cases hp.symm.trans hok
  | decides | decided =>
    exact hsilent (fun after => settleRace_armedBy (base.work job turns) after) (by rw [hnext]; rfl)
  | dooms hq =>
    have hended : job.cycle.run.ended = none := by rw [hq]; rfl
    exact hsilent (fun after => resumeCycle_armedBy hended after) (by rw [hnext]; rfl)
  | recalls hw =>
    have hended : job.cycle.run.ended = none := by rw [hw]; rfl
    exact hsilent (fun after => resumeCycle_armedBy hended after) (by rw [hnext]; rfl)
  | @ends interrupted _ he =>
    -- nobody waits for an interrupt that is published with the end
    obtain ⟨htakers, hresume⟩ := resumeCycle_ended he turns
    refine ⟨false, fun hdelivered => absurd hdelivered Bool.false_ne_true, ?_⟩
    show DiffersBy arming false ((base.work job turns).resumeCycle .own)
      (((base.work job turns).armedBy arming).resumeCycle .own)
    rw [hresume, resumeCycle_armedBy_ended he]
    exact differsBy_endCycle h htakers interrupted hs hr
  | crashes hf' => exact absurd hf' (hf _)

/-- The dispatcher takes a command. -/
theorem differsBy_command (h : base.Sound) (reply : Ticket) {command : Command}
    (hk : event.kind = .command command)
    (hs : arming.Suits (base.handling reply command turns).store) (hr : arming.delivered = false) :
    DiffersBy arming false ((base.handling reply command turns).takeTurn (.command event))
      (((base.handling reply command turns).armedBy arming).takeTurn (.command event)) := by
  let line := "got control action " ++ event.kind.name
  have hcommand : event.kind.command? = some command := by
    rw [hk]
    rfl
  have hlogged : (base.on (base.bench.log LogLevel.debug "controller" line)).Sound :=
    h.logged (base.bench.log LogLevel.debug "controller" line).lines
  have hturn (session : Session) : session.takeTurn (.command event)
      = (session.log LogLevel.debug "controller" line).beginCycle .own command event := by
    rw [takeTurn, hcommand]
  rw [hturn, hturn]
  exact differsBy_beginCycle hlogged reply ⟨hs.interrupts, hs.published⟩ hr

theorem turn_of_ending {settled : Bool} {turn : Turn} {rest : List Turn}
    (ht : ∀ turn ∈ turns, turn = .race .own ∨ turn = .reply)
    (hall : turns ++ [if settled then Turn.caller else .reply] = turn :: rest) :
    turn = .race .own ∨ turn = .reply ∨ turn = .caller := by
  have hturn : turn ∈ turns ++ [if settled then Turn.caller else .reply] :=
    hall ▸ List.mem_cons_self
  rcases List.mem_append.mp hturn with hm | hm
  · exact (ht turn hm).imp_right .inl
  · obtain rfl := List.mem_singleton.mp hm
    cases settled with
    | true => exact .inr (.inr rfl)
    | false => exact .inr (.inl rfl)

/-- The turns that lead from the end of a command to the answer publish nothing. -/
theorem differsBy_calm {host : Host} {reply : Ticket} {settled : Bool} {running : Option Command}
    {turn : Turn} (ht : turn = .race .own ∨ turn = .reply ∨ turn = .caller)
    (hs : arming.Suits (base.calm host (.commanding reply settled) running turns).store)
    (hr : arming.delivered = false) :
    DiffersBy arming false
      ((base.calm host (.commanding reply settled) running turns).takeTurn turn)
      (((base.calm host (.commanding reply settled) running turns).armedBy arming).takeTurn
        turn) := by
  have hself := DiffersBy.refl hs hr
  rcases ht with rfl | rfl | rfl
  · exact hself.map (settleRace .own) (settleRace_armedBy _) rfl
  · refine hself.map settleReply (settleReply_armedBy _) ?_
    cases settled <;> rfl
  · refine hself.map (finishCommand reply) (finishCommand_armedBy _ reply) ?_
    exact published_finishCommand _ _

/-- An interrupt may come before a turn is taken from the queue, or after. -/
theorem step_interruptIf (h : job.Sound base)
    (hquiet : job.heard = false → job.cycle.stopping = false)
    {delivered : Bool} (hdelivered : delivered = true → job.heard = false) (turn : Turn) :
    ((base.work job (turn :: turns)).interruptIf delivered).step?
      = some (((base.work job turns).interruptIf delivered).takeTurn turn) := by
  cases delivered with
  | false => rfl
  | true =>
    have hheard := hdelivered rfl
    rw [interruptIf, interruptIf, if_pos rfl, if_pos rfl,
      put_interrupt_first h hheard (hquiet hheard),
      put_interrupt_first h hheard (hquiet hheard)]
    rfl

/-- **The steps of a session with tripwires are those of the session without them, after the
interrupt that is published inside, if any.** -/
theorem differsBy_step {next : Session} (h : Stage session)
    (ho : ∀ fault, session.engine ≠ .halted fault)
    (hpassage : ∃ events, session.bench.passage = .ok events)
    (hf : ∀ cycle fault, session.ownCycle = some cycle → cycle.run ≠ .finished (some fault))
    (hs : arming.Suits session.store) (hr : arming.delivered = false)
    (hn : (session.armedBy arming).step? = some next) :
    ∃ delivered reached, (session.interruptIf delivered).step? = some reached ∧
      DiffersBy arming delivered reached next := by
  -- by the stage: only while a command is under way does an interrupt inside reach anybody
  cases h with
  | rest => cases hn
  | answered => cases hn
  | handling h _ _ hk =>
    obtain rfl := Option.some.inj hn
    exact ⟨false, _, rfl, differsBy_command h _ hk ⟨hs.interrupts, hs.published⟩ hr⟩
  | @work base job turns h hp =>
    cases turns with
    | nil => cases hn
    | cons turn turns =>
      obtain rfl := Option.some.inj hn
      have hquiet : job.heard = false → job.cycle.stopping = false := fun hheard =>
        (paced_hear hp hheard).1
      have hopen : base.service.isOpen = true := by
        cases hservice : base.service with
        | halted fault => exact absurd (Base.engine_of_halted hservice base.channel) (ho fault)
        | _ => rfl
      obtain ⟨delivered, hdelivered, hdiffersBy⟩ :=
        differsBy_takeTurn h (turned_takeTurn h hp) hquiet hopen
        hpassage (fun fault => hf job.cycle fault rfl) ⟨hs.interrupts, hs.published⟩ hr
      exact ⟨delivered, _, step_interruptIf h hquiet hdelivered turn, hdiffersBy⟩
  | @ending base host reply settled running turns command interrupted h _ ht =>
    generalize hall : turns ++ [if settled then Turn.caller else .reply] = all at hn ho hf hs ⊢
    cases all with
    | nil => cases hn
    | cons turn rest =>
      obtain rfl := Option.some.inj hn
      exact ⟨false, _, rfl, differsBy_calm (turn_of_ending ht hall)
        ⟨hs.interrupts, hs.published⟩ hr⟩

/-! ### What comes from outside -/

/-- An interrupt from outside does to a session with tripwires what it does to the other one. -/
theorem differsBy_interrupt (h : session.store.OfSession) (hs : arming.Suits session.store)
    (hr : arming.delivered = false) :
    DiffersBy arming false (session.put .interrupt).1
      ((session.armedBy arming).put .interrupt).1 := by
  obtain ⟨after, hprecedes, hdelivered, hsuits, harmed⟩ := h.put_interrupt hs hr
  obtain ⟨plain, hplain, hundelivered, hwithTripwires⟩ := h.exists_withTripwires
  obtain ⟨quiet, -, -, hquiet, hput⟩ := h.put_interrupt hplain hundelivered
  rw [hwithTripwires] at hput
  obtain ⟨reached, armed, hreached, harmed', hdiffersBy⟩ := differsBy_attempt harmed hput hprecedes
    hsuits.interrupts (hsuits.published.trans hquiet.published.symm)
  rw [hdelivered] at hdiffersBy
  have hfirst : (session.put .interrupt).1 = reached := congrArg Prod.fst hreached
  have hsecond : ((session.armedBy arming).put .interrupt).1 = armed := congrArg Prod.fst harmed'
  rw [hfirst, hsecond]
  exact hdiffersBy

/-- The stores of all stages are as the publications of a session find them. -/
theorem ofSession_of_stage (h : Stage session) : session.store.OfSession := by
  have hcalm {base : Base} (hb : base.Sound) (host : Host) :
      (base.store host.takers).OfSession := by
    refine ofSession_store hb.order fun taker ht => ?_
    cases host with
    | ready ticket =>
      obtain rfl := List.mem_singleton.mp ht
      exact (by decide : ∀ kind ∈ EventKind.tick :: EventKind.derived, kind ∉ EventKind.commands)
    | crashed fault => cases ht
  cases h with
  | rest h => exact hcalm h.sound _
  | handling h =>
    refine ofSession_store h.order fun taker ht => ?_
    obtain rfl := List.mem_singleton.mp ht
    exact (by decide : ∀ kind ∈ EventKind.tick :: EventKind.derived, kind ∉ [EventKind.endStep])
  | work h => exact ofSession_store h.sound.order unwatched_of_mem_takers
  | ending h => exact hcalm h.sound _
  | answered h => exact hcalm h.sound _

/-- Nobody waits for an interrupt when a command is given. -/
theorem not_awaits_interrupt_awaiting (base : Base) (ticket reply : Ticket) :
    ¬ (base.store [⟨ticket, EventKind.commands⟩, ⟨reply, [.endStep]⟩]).Awaits
      EventKind.interrupt := by
  rw [Base.awaits_store_iff]
  rintro (⟨taker, ht, hm⟩ | ⟨-, hn⟩)
  · rcases List.mem_cons.mp ht with rfl | ht
    · have hnone : EventKind.interrupt ∉ EventKind.commands := by decide
      exact hnone hm
    · obtain rfl := List.mem_singleton.mp ht
      cases List.mem_singleton.mp hm
  · cases hn

/-- A command that is given to a session with tripwires reaches the dispatcher as in the other
one. -/
theorem differsBy_give {ticket : Ticket} (h : base.Standing (.ready ticket)) {command : Command}
    (hk : event.kind = .command command) (hs : arming.Suits (base.rest (.ready ticket)).store)
    (hr : arming.delivered = false) :
    DiffersBy arming false ((base.rest (.ready ticket)).give command event)
      (((base.rest (.ready ticket)).armedBy arming).give command event) := by
  let session := base.rest (.ready ticket)
  let takers : List Taker := [⟨ticket, EventKind.commands⟩, ⟨base.nextTicket, [.endStep]⟩]
  have horder : base.ticketed.bench.order = slices := h.sound.order
  have hplain : (base.ticketed.store takers).OfSession :=
    ofSession_store horder (unwatched_awaiting ticket base.nextTicket)
  obtain ⟨hreduce, hhearers, hhear⟩ := command_spec h.active hk takers
  have hquiet : ∀ listener ∈ (base.ticketed.store takers).hearers event.kind,
      Store.Quiet event listener := by
    intro listener hl
    rw [show (base.ticketed.store takers).hearers event.kind = _ from hhearers] at hl
    obtain rfl := List.mem_singleton.mp hl
    exact quiet_reportBusy event
  rw [← hhearers] at hhear
  have hpublishes (bound : Nat) := Store.publishesUnder_put hplain hreduce hquiet hhear rfl bound
  have hnobody : ¬ ((base.ticketed.store takers).record base.bench [event]).Awaits
      EventKind.interrupt :=
    not_awaits_interrupt_awaiting base.ticketed ticket base.nextTicket
  have hawaiting : (session.awaiting command).store = base.ticketed.store takers := rfl
  obtain ⟨reached, armed, hreached, harmed, hdiffersBy⟩ : ∃ reached armed,
      (session.awaiting command).put event = (reached, none) ∧
      ((session.awaiting command).armedBy arming).put event = (armed, none) ∧
      DiffersBy arming false reached armed :=
    attempt_armedBy_of_not_awaits hpublishes rfl hnobody ⟨hs.interrupts, hs.published⟩ hr
  -- the call goes on waiting: its reply has not been published with the command
  have hnone : reached.store.outcome? base.nextTicket = none := by
    obtain rfl := (Prod.mk.inj (hreached.symm.trans (put_awaiting h.sound h.active ticket hk))).1
    exact outcome?_awaiting h.sound (h.ticket ticket rfl) event
  have hdispatcher : session.dispatcher = .awaitingCommand ticket := rfl
  have hgiven : session.give command event
      = { reached with caller := .commanding base.nextTicket false } := by
    rw [give, refusal?_ready h.sound h.active]
    exact issue_of_put hdispatcher hreached hnone
  have hrefusal : (session.armedBy arming).refusal? command = none :=
    refusal?_ready h.sound h.active ticket command
  have hgiven' : (session.armedBy arming).give command event
      = { armed with caller := .commanding base.nextTicket false } := by
    rw [give, hrefusal]
    refine issue_of_put hdispatcher harmed ?_
    obtain ⟨after, -, -, -, rfl⟩ := hdiffersBy
    exact hnone
  rw [hgiven, hgiven']
  exact hdiffersBy.map (fun session => { session with caller := .commanding base.nextTicket false })
    (fun _ => rfl) rfl

end TraceDebugger.Session
