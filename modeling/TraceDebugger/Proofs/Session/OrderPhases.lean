/-
The phases of an order.

From when an order is given to its end a session goes through few phases (`OrderPhase`): the
dispatcher has yet to take the command, the command is under way, or it is over.  What the
dispatcher finds when it learns that the race is decided — whether the pursuit was over — is kept,
and it is what the end of the command tells.

* `At.orderOnCourse_give` — an order that is given to a session at rest is in the first phase;
* `OrderOnCourse.step` — every turn leads from phase to phase, on the course of the trace;
* `OrderOnCourse.interrupt` — an interrupt leaves the order in its phase, whenever it comes;
* `CommandOver.step` — nothing but the answer is left to do when the command is over.
-/
import TraceDebugger.Proofs.Session.Orders
import TraceDebugger.Proofs.Session.Turned

namespace TraceDebugger

/-- The ends of commands among some events. -/
def ends (events : List Event) : List Event := events.filter fun event => event.kind = .endStep

theorem ends_append (first second : List Event) :
    ends (first ++ second) = ends first ++ ends second := List.filter_append ..

theorem ends_eq_nil {events : List Event} (h : ∀ event ∈ events, event.kind ≠ .endStep) :
    ends events = [] :=
  List.filter_eq_nil_iff.mpr fun event he => by simpa using h event he

/-- The pursuit is over. -/
def RunStatus.isFinished : RunStatus → Bool
  | .finished _ => true
  | _ => false

/-- What the dispatcher has found, if it has learnt how the race was decided and the command is
still under way. -/
def Job.found (job : Job) : Option Bool :=
  match job.cycle.stopping with
  | true => some false
  | false => none

/-- A command under way is that of an order, and nothing has failed. -/
structure Job.Follows (job : Job) (order : Order) (base : Base) : Prop where
  sound : job.Sound base
  isOpen : base.service.isOpen = true
  command : job.cycle.command = order.command
  event : job.cycle.event = order.event
  unfailed : ∀ fault, job.cycle.run ≠ .finished (some fault)

namespace Session

/-- What the dispatcher finds in the next turn, if it is the dispatcher's: whether the pursuit is
over. -/
def finding? (session : Session) : Option Bool :=
  match session.turns.head? with
  | some (.cycle .own) => session.ownCycle.map fun cycle => cycle.run.isFinished
  | _ => none

/-- The session after a ticket has been given out. -/
def ticketed (session : Session) : Session :=
  session.onStore fun store => { store with nextTicket := store.nextTicket + 1 }

/-- A command is over, interrupted or not, and the caller has learnt of that or will. -/
inductive CommandOver (command : Command) (interrupted : Bool) : Session → Prop
  | ending {base ticket reply settled running turns} (h : Base.Standing base (.ready ticket))
      (hi : base.service = .idle)
      (ho : (base.store []).outcome? reply = some (.endStep command interrupted))
      (ht : ∀ turn ∈ turns, turn = .race .own ∨ turn = .reply) :
      CommandOver command interrupted (base.calm (.ready ticket) (.commanding reply settled) running
        (turns ++ [if settled then .caller else .reply]))
  | answered {base ticket} (h : Base.Standing base (.ready ticket)) (hi : base.service = .idle) :
      CommandOver command interrupted
        (base.calm (.ready ticket) (.answered (.ok (.flag !interrupted))) none [])

/-- The phases of an order, with what the dispatcher has found, if it has.  Before the end of the
command the ends of other ones have been published, and then its own one once. -/
inductive OrderPhase (order : Order) (ended : List Event) : Option Bool → Session → Prop
  | given {base reply} (h : Base.Sound base) (hr : reply < base.nextTicket)
      (hi : base.service = .idle) (he : ends base.published = ended) :
      OrderPhase order ended none (base.handling reply order.command [.command order.event])
  | underway {base job turns found} (h : Job.Follows job order base)
      (hp : Paced base.service job turns) (hw : found = job.found)
      (he : ends base.published = ended) : OrderPhase order ended found (base.work job turns)
  | finished {session interrupted found} (h : CommandOver order.command interrupted session)
      (hw : found = some !interrupted)
      (he : ends session.store.published = .endStep order.command interrupted :: ended) :
      OrderPhase order ended found session

/-- An order in one of its phases, on the course of a trace from a cursor on. -/
structure OrderOnCourse (start : Workbench) (low : Nat) (order : Order) (ended : List Event)
    (found : Option Bool) (session : Session) : Prop where
  orderPhase : OrderPhase order ended found session
  course : start.OnCourse session.bench
  low_le : low ≤ session.cursor

variable {start : Workbench} {order : Order} {ended : List Event} {found : Option Bool}
  {session next : Session} {base : Base} {job : Job} {turns : List Turn} {turn : Turn}

/-! ### A command under way -/

/-- The parts of a session with a command under way can be told apart. -/
theorem work_inj {base' : Base} {job' : Job} {turns' : List Turn}
    (h : base.work job turns = base'.work job' turns') :
    base = base' ∧ job = job' ∧ turns = turns' := by
  obtain ⟨bench, outcomes, published, nextTicket, channel, service⟩ := base
  obtain ⟨bench', outcomes', published', nextTicket', channel', service'⟩ := base'
  obtain ⟨reply, cycle, heard⟩ := job
  obtain ⟨reply', cycle', heard'⟩ := job'
  obtain rfl : cycle = cycle' := Option.some.inj (congrArg Session.ownCycle h)
  obtain ⟨rfl, -⟩ := CallerStatus.commanding.inj (congrArg Session.caller h)
  obtain rfl : channel = channel' :=
    congrArg Channel.ticket (List.cons.inj (congrArg (fun s : Session => s.store.channels) h)).1
  obtain rfl : service = service' := by
    have hengine : service.engine channel = service'.engine channel := congrArg Session.engine h
    cases service <;> cases service' <;> cases hengine <;> rfl
  obtain rfl : heard = heard' := by
    -- either the cycle still waits for an interrupt or it does not
    have htakers : (Job.mk reply cycle heard).takers = (Job.mk reply cycle heard').takers :=
      congrArg (fun s : Session => s.store.takers) h
    have hlength := congrArg List.length htakers
    cases heard <;> cases heard' <;> simp [Job.takers, Job.interruptTakers] at hlength ⊢
  obtain rfl : bench = bench' := congrArg Session.bench h
  obtain rfl : outcomes = outcomes' := congrArg (fun s : Session => s.store.outcomes) h
  obtain rfl : published = published' := congrArg (fun s : Session => s.store.published) h
  obtain rfl : nextTicket = nextTicket' := congrArg (fun s : Session => s.store.nextTicket) h
  exact ⟨rfl, rfl, congrArg Session.turns h⟩

theorem sound_paced_of_stage (h : Stage (base.work job turns)) :
    job.Sound base ∧ Paced base.service job turns := by
  generalize hall : base.work job turns = all at h
  cases h with
  | work h hp =>
    obtain ⟨rfl, rfl, rfl⟩ := work_inj hall
    exact ⟨h, hp⟩
  | rest => cases congrArg Session.ownCycle hall
  | handling => cases congrArg Session.ownCycle hall
  | ending => cases congrArg Session.ownCycle hall
  | answered => cases congrArg Session.ownCycle hall

/-- A stage with the command of an order under way is a phase of the order. -/
theorem orderPhase_of_stage (h : Stage (base.work job turns)) (ho : base.service.isOpen = true)
    (hc : job.cycle.command = order.command) (hv : job.cycle.event = order.event)
    (hf : ∀ fault, job.cycle.run ≠ .finished (some fault)) (hw : found = job.found)
    (he : ends base.published = ended) : OrderPhase order ended found (base.work job turns) := by
  obtain ⟨hsound, hpaced⟩ := sound_paced_of_stage h
  exact .underway ⟨hsound, ho, hc, hv, hf⟩ hpaced hw he

/-- The end of a command is not published while a step is processed. -/
theorem ends_passage {bench : Workbench} {events : List Event} (hp : bench.passage = .ok events)
    (published : List Event) : ends (events.reverse ++ published) = ends published := by
  have hnone : ends events.reverse = [] := by
    refine ends_eq_nil fun event he hk => ?_
    have hkind := Workbench.kinds_of_passage hp event (List.mem_reverse.mp he)
    rw [hk] at hkind
    exact absurd hkind (by decide)
  rw [ends_append, hnone, List.nil_append]

theorem idle_of_isOpen {service : Service} (ho : service.isOpen = true) (hb : service ≠ .busy) :
    service = .idle := by
  cases service with
  | idle => rfl
  | busy => exact absurd rfl hb
  | halted => cases ho

/-- A pursuit can always tell where it has come to, and can begin. -/
theorem exists_resumption (h : job.Follows order base) (hp : base.bench.Processable)
    (queued : Option Pursuit) : ∃ next, resumption base.bench job.cycle queued = .ok next := by
  have hpoised := h.sound.sound.poised h.isOpen
  cases queued with
  | none =>
    have hbreakpoints := order.breakpoints_event
    rw [← h.command, ← h.event] at hbreakpoints
    obtain ⟨pursuit, hbegin⟩ := hp.exists_begin hpoised job.cycle.event job.cycle.command
      hbreakpoints
    exact ⟨some pursuit, by rw [resumption, hbegin]; rfl⟩
  | some pursuit => exact hp.exists_proceed hpoised pursuit

/-- When the cycle of a pursuit that is over has its turn, only the caller has something to do
after it. -/
theorem turns_of_ended {service : Service} (hp : Paced service job (.cycle .own :: turns))
    {ended : Bool × Option Fault} (he : job.cycle.run.ended = some ended) :
    ∀ turn ∈ turns, turn = .race .own ∨ turn = .reply := by
  -- a pursuit that is over has no turn of its own to come
  have hmark {mark : List Turn} (hm : Mark service job.cycle.run mark) : False := by
    generalize job.cycle.run = run at hm he
    cases hm <;> cases he
  generalize hall : Turn.cycle .own :: turns = all at hp
  cases hp with
  | ahead hm => exact (hmark hm).elim
  | behind hm => exact (hmark hm).elim
  | finished => cases hall
  | decided _ _ _ _ ht =>
    rcases ht with rfl | ⟨-, rfl | rfl⟩ <;> cases hall
    · exact fun _ hm => absurd hm List.not_mem_nil
    · exact fun _ hm => .inl (List.mem_singleton.mp hm)
  | doomed => cases hall
  | doomedServed => cases hall
  | dropped =>
    cases hall
    exact fun _ hm => absurd hm List.not_mem_nil

/-- What the dispatcher has found is what the end of the command tells. -/
theorem found_or_finding {interrupted : Bool} {fault : Option Fault}
    (he : job.cycle.run.ended = some (interrupted, fault)) (hs : job.cycle.stopping = interrupted) :
    job.found.or (base.work job (.cycle .own :: turns)).finding? = some !interrupted := by
  show job.found.or (some job.cycle.run.isFinished) = _
  rw [Job.found, hs]
  cases hr : job.cycle.run with
  | finished =>
    rw [hr] at he
    obtain ⟨rfl, -⟩ := Prod.mk.inj (Option.some.inj he)
    rfl
  | cancelled =>
    rw [hr] at he
    obtain ⟨rfl, -⟩ := Prod.mk.inj (Option.some.inj he)
    rfl
  | _ => rw [hr] at he; cases he

/-- A command under way is still under way after a turn, or over. -/
theorem orderPhase_takeTurn (h : job.Follows order base)
    (hp : Paced base.service job (turn :: turns)) (hall : base.bench.Processable)
    (he : ends base.published = ended) :
    OrderPhase order ended (job.found.or (base.work job (turn :: turns)).finding?)
      ((base.work job turns).takeTurn turn) := by
  have hstage := (descends_takeTurn h.sound hp).1
  have hturned := turned_takeTurn h.sound hp
  have hnone : job.found.or none = job.found := Option.or_none
  generalize (base.work job turns).takeTurn turn = next at hstage hturned ⊢
  -- by what the turn does: nothing fails, since every step of the trace can be processed
  cases hturned with
  | asks =>
    exact orderPhase_of_stage hstage rfl h.command h.event (fun _ hr => by cases hr) hnone he
  | loses _ _ hclosed => exact absurd (hclosed.symm.trans h.isOpen) Bool.false_ne_true
  | arrives =>
    exact orderPhase_of_stage hstage h.isOpen h.command h.event (fun _ hr => by cases hr) hnone he
  | fails _ _ _ hm =>
    obtain ⟨next, hnext⟩ := exists_resumption h hall _
    cases hm.symm.trans hnext
  | drops =>
    exact orderPhase_of_stage hstage h.isOpen h.command h.event (fun _ hr => by cases hr) hnone he
  | serves _ _ _ hok =>
    exact orderPhase_of_stage hstage rfl h.command h.event (fun _ hr => by cases hr) hnone
      ((ends_passage hok base.published).trans he)
  | servesLast _ _ _ _ hok =>
    exact orderPhase_of_stage hstage rfl h.command h.event h.unfailed hnone
      ((ends_passage hok base.published).trans he)
  | halts _ herror =>
    obtain ⟨events, hok⟩ := hall.exists_passage
    cases herror.symm.trans hok
  | decides => exact orderPhase_of_stage hstage h.isOpen h.command h.event h.unfailed hnone he
  | decided => exact orderPhase_of_stage hstage h.isOpen h.command h.event h.unfailed hnone he
  -- the cycle has its turn before the pursuit is over, and finds that it is not
  | dooms hq hs =>
    refine orderPhase_of_stage hstage h.isOpen h.command h.event h.unfailed ?_ he
    show job.found.or (some job.cycle.run.isFinished) = _
    rw [Job.found, hs, hq]
    rfl
  | recalls hw hs =>
    refine orderPhase_of_stage hstage h.isOpen h.command h.event (fun _ hr => by cases hr) ?_ he
    show job.found.or (some job.cycle.run.isFinished) = _
    rw [Job.found, hs, hw]
    rfl
  | @ends interrupted lines hd hs hb =>
    obtain ⟨hstanding, -, -, -⟩ := left_closed h.sound hb lines interrupted
    have houtcome := Base.outcome?_closed (base.on (base.bench.during none lines)) job.reply
      job.cycle.command interrupted
    rw [h.command] at houtcome hstanding ⊢
    refine .finished
      (.ending hstanding (idle_of_isOpen h.isOpen hb) houtcome (turns_of_ended hp hd))
      (found_or_finding hd hs) ?_
    exact congrArg (List.cons _) he
  | crashes hf => exact absurd hf (h.unfailed _)

/-! ### Before and after -/

/-- The dispatcher takes the command of an order. -/
theorem orderPhase_begin {reply : Ticket} (h : base.Sound) (hr : reply < base.nextTicket)
    (hi : base.service = .idle) (he : ends base.published = ended)
    (hn : (base.handling reply order.command [.command order.event]).step? = some next) :
    OrderPhase order ended none next ∧ next.bench.core = base.bench.core := by
  have hb : base.service ≠ .busy := by
    rw [hi]
    exact Service.idle_ne_busy
  have hstage := (descends_step (.handling h hr hb order.event_kind) hn).1
  obtain ⟨lines, hbegin⟩ := takeTurn_command h reply order.event_kind []
  obtain rfl : _ = next := Option.some.inj hn
  have hnext : ({ base.handling reply order.command [.command order.event] with turns := [] }
      : Session).takeTurn (.command order.event) = _ := hbegin
  rw [hnext] at hstage ⊢
  have hopen : base.service.isOpen = true := Base.isOpen_of_idle hi
  exact ⟨orderPhase_of_stage hstage hopen rfl rfl (fun _ hr => by cases hr) rfl he, rfl⟩

section CommandOver

variable {command : Command} {interrupted : Bool}

theorem CommandOver.stage (h : CommandOver command interrupted session) : Stage session := by
  cases h with
  | ending h _ ho ht => exact .ending h ho ht
  | answered h => exact .answered h

/-- Nothing but the answer is left to do when a command is over. -/
theorem CommandOver.step (h : CommandOver command interrupted session)
    (hn : session.step? = some next) :
    CommandOver command interrupted next ∧ next.store = session.store := by
  cases h with
  | answered => cases hn
  | @ending base ticket reply settled running turns h hi ho ht =>
    have hasked {running : Option Command} {turns : List Turn}
        (ht : ∀ turn ∈ turns, turn = .race .own ∨ turn = .reply) :
        CommandOver command interrupted
          (base.calm (.ready ticket) (.commanding reply true) running (turns ++ [.caller])) :=
      .ending h hi ho ht
    -- turns of the race and of the reply may be left over; the caller's own turn comes after them
    cases turns with
    | nil =>
      cases settled with
      | false =>
        obtain rfl := Option.some.inj hn
        exact ⟨hasked (fun _ hm => absurd hm List.not_mem_nil), rfl⟩
      | true =>
        have hanswer : (base.calm (.ready ticket) (.commanding reply true) running []).resumeCaller
            = base.calm (.ready ticket) (.answered (.ok (.flag !interrupted))) none [] :=
          resumeCaller_commanding ho
        obtain rfl := Option.some.inj ((congrArg some hanswer).symm.trans hn)
        exact ⟨.answered h hi, rfl⟩
    | cons turn turns =>
      obtain rfl := Option.some.inj hn
      have hrest : ∀ turn ∈ turns, turn = .race .own ∨ turn = .reply := fun turn hm =>
        ht turn (List.mem_cons_of_mem _ hm)
      rcases ht turn List.mem_cons_self with rfl | rfl
      · exact ⟨.ending h hi ho hrest, rfl⟩
      · cases settled with
        | false => exact ⟨hasked (harmless_append_reply hrest), rfl⟩
        | true => exact ⟨hasked hrest, rfl⟩

theorem CommandOver.caller_ne_idle (h : CommandOver command interrupted session) :
    session.caller ≠ .idle := by
  intro hidle
  cases h <;> cases hidle

/-- When nothing can move any more, the caller has its answer. -/
theorem CommandOver.answered_of_nil (h : CommandOver command interrupted session)
    (hn : session.turns = []) : session.caller = .answered (.ok (.flag !interrupted)) := by
  cases h with
  | ending => cases List.append_ne_nil_of_right_ne_nil _ (List.cons_ne_nil _ _) hn
  | answered => rfl

/-- The engine waits for a request, none is left, and no frame is held. -/
theorem CommandOver.served (h : CommandOver command interrupted session) :
    (∃ channel, session.engine = .awaitingRequest channel ∧ session.store.waitingIn channel = []) ∧
      session.bench.held = none := by
  have hidle {base : Base} {host : Host} {caller : CallerStatus} {running : Option Command}
      {turns : List Turn} (hs : base.Sound) (hi : base.service = .idle) :
      (∃ channel, (base.calm host caller running turns).engine = .awaitingRequest channel ∧
        (base.calm host caller running turns).store.waitingIn channel = []) ∧
      base.bench.held = none := by
    refine ⟨⟨base.channel, ?_, waitingIn_idle hi _⟩, hs.held (Base.isOpen_of_idle hi)⟩
    show base.service.engine base.channel = _
    rw [hi]
    rfl
  cases h with
  | ending h hi => exact hidle h.sound hi
  | answered h hi => exact hidle h.sound hi

/-- The caller goes away with its answer, and the session rests. -/
theorem CommandOver.release (h : CommandOver command interrupted session)
    (hc : start.OnCourse session.bench) {result : Except Fault Reply}
    (ha : session.caller = .answered result) :
    ∃ base ticket, At start base ticket session.release := by
  cases h with
  | ending => cases ha
  | answered h hi => exact ⟨_, _, rfl, h, hi, hc⟩

/-- An interrupt is only published then. -/
theorem CommandOver.interrupt (h : CommandOver command interrupted session) :
    CommandOver command interrupted (session.put .interrupt).1 ∧
      (session.put .interrupt).1.store.published = .interrupt :: session.store.published := by
  cases h with
  | ending h hi ho ht =>
    rw [put_interrupt_calm h.sound.order]
    exact ⟨.ending (standing_note h _) hi ho ht, rfl⟩
  | answered h hi =>
    rw [put_interrupt_calm h.sound.order]
    exact ⟨.answered (standing_note h _) hi, rfl⟩

theorem standing_ticketed {host : Host} (h : base.Standing host) : base.ticketed.Standing host :=
  ⟨h.sound.ticketed, h.active, h.service, fun ticket ht => Nat.lt_succ_of_lt (h.ticket ticket ht)⟩

theorem CommandOver.ticketed (h : CommandOver command interrupted session) :
    CommandOver command interrupted session.ticketed := by
  cases h with
  | ending h hi ho ht => exact .ending (standing_ticketed h) hi ho ht
  | answered h hi => exact .answered (standing_ticketed h) hi

end CommandOver

/-! ### Phases -/

theorem OrderPhase.stage (h : OrderPhase order ended found session) : Stage session := by
  cases h with
  | given h hr hi => exact .handling h hr (by rw [hi]; exact Service.idle_ne_busy) order.event_kind
  | underway h hp => exact .work h.sound hp
  | finished h => exact h.stage

theorem OrderPhase.interrupt (h : OrderPhase order ended found session) :
    OrderPhase order ended found (session.put .interrupt).1 := by
  cases h with
  | given h hr hi he =>
    have hsignal : EventKind.interrupt ∈ signals := by decide
    rw [put_handling h.order _ _ hsignal (by decide) (by decide)]
    exact .given (h.note _) hr hi he
  | @underway base job turns _ h hp hw he =>
    have hnoted := h.sound.sound.note [.interrupt]
    -- an interrupt that has been heard before reaches nobody but channels
    cases hheard : job.heard with
    | true =>
      rw [put_interrupt_again h.sound.sound.order hheard]
      exact .underway ⟨h.sound.move hnoted (Nat.le_refl _), h.isOpen, h.command, h.event,
        h.unfailed⟩ hp hw he
    | false =>
      obtain ⟨hs, hhear⟩ := paced_hear hp hheard
      have hsound := hnoted.took h.sound.interrupt_lt .interrupt
      rw [put_interrupt_first h.sound hheard hs]
      exact .underway ⟨(h.sound.move hsound (Nat.le_refl _)).hear, h.isOpen, h.command, h.event,
        h.unfailed⟩ hhear hw he
  | finished h hw he =>
    obtain ⟨hover, hpublished⟩ := h.interrupt
    refine .finished hover hw ?_
    rw [hpublished]
    exact he

/-- The engine has not halted. -/
theorem OrderPhase.engine_ne_halted (h : OrderPhase order ended found session) (fault : Fault) :
    session.engine ≠ .halted fault := by
  have hopen {base : Base} (ho : base.service.isOpen = true) :
      base.service.engine base.channel ≠ .halted fault := by
    cases hservice : base.service with
    | halted => cases (Base.isOpen_of_halted hservice).symm.trans ho
    | _ => exact fun hh => by cases hh
  cases h with
  | given _ _ hi => exact hopen (Base.isOpen_of_idle hi)
  | underway h => exact hopen h.isOpen
  | finished h =>
    cases h with
    | ending _ hi => exact hopen (Base.isOpen_of_idle hi)
    | answered _ hi => exact hopen (Base.isOpen_of_idle hi)

/-- No pursuit has failed. -/
theorem OrderPhase.unfailed (h : OrderPhase order ended found session) (cycle : Cycle)
    (fault : Fault) (hc : session.ownCycle = some cycle) : cycle.run ≠ .finished (some fault) := by
  cases h with
  | given => cases hc
  | underway h =>
    obtain rfl := Option.some.inj hc
    exact h.unfailed fault
  | finished h => cases h <;> cases hc

/-- The caller waits for the answer or has it. -/
theorem OrderPhase.caller_ne_idle (h : OrderPhase order ended found session) :
    session.caller ≠ .idle := by
  cases h with
  | given => exact fun hidle => by cases hidle
  | underway => exact fun hidle => by cases hidle
  | finished h => exact h.caller_ne_idle

/-- Before the end of the command is published, something can move. -/
theorem OrderPhase.cases_end (h : OrderPhase order ended found session) :
    (ends session.store.published = ended ∧ session.turns ≠ []) ∨
      ∃ interrupted, found = some !interrupted ∧
        ends session.store.published = .endStep order.command interrupted :: ended ∧
        CommandOver order.command interrupted session := by
  have hstage := h.stage
  have hengine := h.engine_ne_halted
  cases h with
  | given _ _ _ he => exact .inl ⟨he, List.cons_ne_nil _ _⟩
  | underway _ _ _ he =>
    refine .inl ⟨he, fun hn => ?_⟩
    obtain ⟨fault, hhalted⟩ := halted_of_waiting hstage hn rfl
    exact hengine fault hhalted
  | finished h hw he => exact .inr ⟨_, hw, he, h⟩

/-- The caller has its answer only when the command is over. -/
theorem OrderPhase.commandOver_of_answered (h : OrderPhase order ended found session)
    {result : Except Fault Reply} (ha : session.caller = .answered result) :
    ∃ interrupted, CommandOver order.command interrupted session := by
  cases h with
  | given => cases ha
  | underway => cases ha
  | finished h => exact ⟨_, h⟩

theorem OrderPhase.ticketed (h : OrderPhase order ended found session) :
    OrderPhase order ended found session.ticketed := by
  cases h with
  | given h hr hi he => exact .given h.ticketed (Nat.lt_succ_of_lt hr) hi he
  | underway h hp hw he =>
    exact .underway ⟨h.sound.move h.sound.sound.ticketed (Nat.le_succ _), h.isOpen, h.command,
      h.event, h.unfailed⟩ hp hw he
  | finished h hw he => exact .finished h.ticketed hw he

theorem finding?_of_none (h : session.ownCycle = none) : session.finding? = none := by
  rw [finding?, h]
  split <;> rfl

/-- Every turn leads from one phase of an order to another one, on the course of the trace. -/
theorem OrderPhase.step (h : OrderPhase order ended found session)
    (hall : session.bench.Processable) (hn : session.step? = some next) :
    OrderPhase order ended (found.or session.finding?) next ∧
      (next.bench.core = session.bench.core ∨ ∃ events, session.bench.passage = .ok events ∧
        session.bench.Poised ∧ next.bench.core = (session.bench.past events).core) := by
  cases h with
  | given h hr hi he =>
    obtain ⟨horderPhase, hcore⟩ := orderPhase_begin h hr hi he hn
    exact ⟨horderPhase, .inl hcore⟩
  | @underway base job turns _ h hp hw he =>
    cases turns with
    | nil => cases hn
    | cons turn turns =>
      obtain rfl := Option.some.inj hn
      subst hw
      refine ⟨orderPhase_takeTurn h hp hall he, ?_⟩
      -- a turn leaves the workbench alone or processes a step, which cannot fail on this trace
      obtain hcore | ⟨fault, herror⟩ | ⟨events, hok, hcore⟩ :=
        (turned_takeTurn h.sound hp).core_cases
      · exact .inl hcore
      · obtain ⟨events, hok⟩ := hall.exists_passage
        cases herror.symm.trans hok
      · exact .inr ⟨events, hok, h.sound.sound.poised h.isOpen, hcore⟩
  | finished h hw he =>
    obtain ⟨hover, hstore⟩ := h.step hn
    have hnone : session.ownCycle = none := by cases h <;> rfl
    have hbench : next.bench = session.bench := congrArg Store.bench hstore
    rw [finding?_of_none hnone, Option.or_none]
    exact ⟨.finished hover hw (hstore ▸ he), .inl (by rw [hbench])⟩

/-! ### Orders on the course of a trace -/

theorem OrderOnCourse.step {low : Nat} (h : OrderOnCourse start low order ended found session)
    (hs : Outset start) (hn : session.step? = some next) :
    OrderOnCourse start low order ended (found.or session.finding?) next := by
  obtain ⟨horderPhase, hcore | ⟨events, hok, hpoised, hcore⟩⟩ :=
    h.orderPhase.step (h.course.processable hs.processable) hn
  · refine ⟨horderPhase, h.course.congr hcore, ?_⟩
    rw [cursor, Workbench.recording_congr hcore]
    exact h.low_le
  · refine ⟨horderPhase, (h.course.past hpoised hok).congr hcore, ?_⟩
    have hlow : low ≤ session.bench.recording.cursor := h.low_le
    have hle := session.bench.recording.cursor_le
    rw [cursor, Workbench.recording_congr hcore, Workbench.cursor_past hok]
    omega

theorem OrderOnCourse.interrupt {low : Nat}
    (h : OrderOnCourse start low order ended found session) :
    OrderOnCourse start low order ended found (session.put .interrupt).1 := by
  obtain ⟨hbench, -, -⟩ := interrupt_cases h.orderPhase.stage
  refine ⟨h.orderPhase.interrupt, h.course.congr (by rw [hbench]), ?_⟩
  rw [cursor, hbench]
  exact h.low_le

theorem OrderOnCourse.ticketed {low : Nat} (h : OrderOnCourse start low order ended found session) :
    OrderOnCourse start low order ended found session.ticketed :=
  ⟨h.orderPhase.ticketed, h.course, h.low_le⟩

/-- An order that is given to a session at rest has its command taken by the dispatcher next. -/
theorem At.orderOnCourse_give {ticket : Ticket} (h : At start base ticket session) (order : Order) :
    OrderOnCourse start session.cursor order (ends session.store.published) none
      (session.give order.command order.event) := by
  have hticket := h.standing.ticket ticket rfl
  have hsound := h.standing.sound
  obtain rfl := h.eq_rest
  have hends : ends (base.publish base.bench [order.event]).published = ends base.published := by
    refine List.filter_cons_of_neg ?_
    rw [order.event_kind]
    simp
  rw [give_ready hsound h.standing.active hticket order.event_kind]
  exact ⟨.given ((hsound.note _).took hticket _).ticketed (Nat.lt_succ_self _) h.idle hends,
    h.reached, Nat.le_refl _⟩

end Session

end TraceDebugger
