/-
Commands and interrupts.

Interrupts may come at any moment, from outside or from listeners, and they may come while a command
runs: the pursuit of the command races against them.  Whatever happens, the command drains before
its end is announced.

* `Arms.step` — a turn of a session with tripwires is one of the session without, perhaps after an
  interrupt;
* `Race.orderOnCourse` — a command keeps to the phases of its order, whatever interrupts come;
* `exists_steps_nil_of_orderOnCourse` — and comes to its end;
* `WithoutCommands.calm`, `At.shown_eq` — after that nothing moves, and nobody can tell that there
  was an interrupt;
* `race_drains` — all of that.
-/
import TraceDebugger.Proofs.Session.OrderPhases
import TraceDebugger.Proofs.Session.Chronicle
import TraceDebugger.Proofs.Session.ArmedTurns
import TraceDebugger.Proofs.Session.Waiting

namespace TraceDebugger

theorem withoutInterrupts_reverse (events : List Event) :
    withoutInterrupts events.reverse = (withoutInterrupts events).reverse :=
  List.filter_reverse

theorem ends_withoutInterrupts (events : List Event) :
    ends (withoutInterrupts events) = ends events := by
  rw [ends, ends, withoutInterrupts, List.filter_filter]
  refine List.filter_congr fun event _ => ?_
  by_cases hk : event.kind = .endStep <;> simp [hk]

/-- What has been published apart from interrupts tells the ends of commands. -/
theorem ends_congr {events events' : List Event}
    (h : withoutInterrupts events = withoutInterrupts events') :
    ends events = ends events' := by
  rw [← ends_withoutInterrupts, h, ends_withoutInterrupts]

namespace Session

/-- A session that has loaded its trace, whatever has been asked of it since: commands have been
given when no other one was pending, interrupts have come from outside, and listeners have come and
gone that publish one when a certain event happens.  A listener that publishes several interrupts is
as many tripwires. -/
inductive Onward (origin : Session) : Session → Prop
  | origin : Onward origin origin
  | give {session} (h : Onward origin session) (hi : session.caller = .idle) (order : Order) :
      Onward origin (session.give order.command order.event)
  | turn {session next} (h : Onward origin session) (hs : session.step? = some next) :
      Onward origin next
  | interrupt {session} (h : Onward origin session) : Onward origin (session.put .interrupt).1
  | arm {session} (h : Onward origin session) (kind : EventKind) (cursor : Option Int) :
      Onward origin (session.onStore (Store.arm kind cursor .interrupt))
  | disarm {session} (h : Onward origin session) : Onward origin (session.onStore Store.disarm)
  | release {session result} (h : Onward origin session) (ha : session.caller = .answered result) :
      Onward origin session.release

/-- An order is given to a session, and interrupts come while it is carried out.  What the
dispatcher finds when it learns that the race is decided — whether the pursuit was over — is
kept. -/
inductive Race (here : Session) (order : Order) : Option Bool → Session → Prop
  | given : Race here order none (here.give order.command order.event)
  | turn {found session next} (h : Race here order found session) (hs : session.step? = some next) :
      Race here order (found.or session.finding?) next
  | interrupt {found session} (h : Race here order found session) :
      Race here order found (session.put .interrupt).1
  | arm {found session} (h : Race here order found session) (kind : EventKind)
      (cursor : Option Int) :
      Race here order found (session.onStore (Store.arm kind cursor .interrupt))
  | disarm {found session} (h : Race here order found session) :
      Race here order found (session.onStore Store.disarm)

/-- What becomes of a session to which no command is given. -/
inductive WithoutCommands (session : Session) : Session → Prop
  | refl : WithoutCommands session session
  | turn {later next} (h : WithoutCommands session later) (hs : later.step? = some next) :
      WithoutCommands session next
  | interrupt {later} (h : WithoutCommands session later) :
      WithoutCommands session (later.put .interrupt).1
  | arm {later} (h : WithoutCommands session later) (kind : EventKind) (cursor : Option Int) :
      WithoutCommands session (later.onStore (Store.arm kind cursor .interrupt))
  | disarm {later} (h : WithoutCommands session later) :
      WithoutCommands session (later.onStore Store.disarm)
  | release {later result} (h : WithoutCommands session later)
      (ha : later.caller = .answered result) : WithoutCommands session later.release

/-- The ends of commands that a session has published after another one. -/
def reports (session here : Session) : List Event :=
  ends (session.chronicle.drop here.chronicle.length)

/-- What a session shows of orders in a row: of each what comes of it, what it publishes and the
state that it leads to. -/
def shown (session : Session) : List Order → List (Outcome × List Event × Slices)
  | [] => []
  | order :: rest =>
    let (next, outcome) := session.carryOut order
    (outcome, next.chronicle.drop session.chronicle.length, next.bench.slices) :: next.shown rest

/-- A session in which a command that was given at some point has drained. -/
structure Drained (origin here session : Session) : Prop where
  /-- The engine waits for a request, and none is left. -/
  served : ∃ channel, session.engine = .awaitingRequest channel ∧
    session.store.waitingIn channel = []
  /-- No step is processed in part. -/
  whole : session.bench.held = none
  /-- The state is that of as many single advances as the cursor tells. -/
  state : session.bench.slices = (origin.viewAt session.cursor).slices
  onward : here.cursor ≤ session.cursor
  /-- Nothing moves until the next command. -/
  still : ∀ later, WithoutCommands session later → later.bench = session.bench ∧
    withoutInterrupts later.chronicle = withoutInterrupts session.chronicle
  /-- Every later command does what it does after those single advances. -/
  unmarked : ∀ later, WithoutCommands session later → later.caller = .idle →
    later.store.tripwires = [] →
    ∀ orders, later.shown orders
      = (origin.obey (List.replicate session.cursor .advance)).shown orders

variable {start : Workbench} {order : Order} {ended since : List Event} {found : Option Bool}
  {origin here session armed next later : Session} {base : Base} {ticket : Ticket}

/-! ### Tripwires -/

/-- A session is another one with tripwires that publish interrupts; it has published some events
at least. -/
def Arms (since : List Event) (session armed : Session) : Prop :=
  ∃ arming : Arming, arming.Suits session.store ∧ arming.delivered = false ∧
    since <:+ arming.published ∧ armed = session.armedBy arming

/-- The tripwires of a session. -/
def wires (session : Session) : Nat := session.store.tripwires.length

theorem Arms.mono {since' : List Event} (h : Arms since session armed) (hs : since' <:+ since) :
    Arms since' session armed := by
  obtain ⟨arming, hsuits, hdelivered, hsince, rfl⟩ := h
  exact ⟨arming, hsuits, hdelivered, hs.trans hsince, rfl⟩

theorem DiffersBy.arms {arming : Arming} {delivered : Bool}
    (h : DiffersBy arming delivered session armed) (hs : since <:+ arming.published) :
    Arms since session armed := by
  obtain ⟨after, hprecedes, -, hsuits, rfl⟩ := h
  exact ⟨{ after with delivered := false }, ⟨hsuits.interrupts, hsuits.published⟩, rfl,
    hs.trans hprecedes.grows, rfl⟩

theorem Arms.published (h : Arms since session armed) : since <:+ armed.store.published := by
  obtain ⟨arming, -, -, hsince, rfl⟩ := h
  exact hsince

theorem Arms.withoutInterrupts (h : Arms since session armed) :
    withoutInterrupts armed.store.published = withoutInterrupts session.store.published := by
  obtain ⟨arming, hsuits, -, -, rfl⟩ := h
  exact hsuits.published

theorem Arms.interrupt (h : Arms since session armed) (hs : Stage session) :
    Arms since (session.put .interrupt).1 (armed.put .interrupt).1 := by
  obtain ⟨arming, hsuits, hdelivered, hsince, rfl⟩ := h
  exact (differsBy_interrupt (ofSession_of_stage hs) hsuits hdelivered).arms hsince

theorem Arms.arm (h : Arms since session armed) (kind : EventKind) (cursor : Option Int) :
    Arms since session.ticketed (armed.onStore (Store.arm kind cursor .interrupt)) := by
  obtain ⟨arming, hsuits, hdelivered, hsince, rfl⟩ := h
  let wire : Tripwire := { ticket := session.store.nextTicket, kind, cursor, event := .interrupt }
  refine ⟨{ arming with wires := arming.wires ++ [wire] }, ⟨fun other ho => ?_, hsuits.published⟩,
    hdelivered, hsince, rfl⟩
  rcases List.mem_append.mp ho with ho | ho
  · exact hsuits.interrupts other ho
  · obtain rfl := List.mem_singleton.mp ho
    rfl

theorem Arms.disarm (h : Arms since session armed) :
    Arms since session (armed.onStore Store.disarm) := by
  obtain ⟨arming, hsuits, hdelivered, hsince, rfl⟩ := h
  exact ⟨{ arming with wires := [] }, ⟨fun _ hm => absurd hm List.not_mem_nil, hsuits.published⟩,
    hdelivered, hsince, rfl⟩

theorem release_of_answered {result : Except Fault Reply} (ha : session.caller = .answered result) :
    session.release = { session with caller := .idle } := by
  rw [release, ha]

theorem Arms.release (h : Arms since session armed) {result : Except Fault Reply}
    (ha : session.caller = .answered result) : Arms since session.release armed.release := by
  obtain ⟨arming, hsuits, hdelivered, hsince, rfl⟩ := h
  have ha' : (session.armedBy arming).caller = .answered result := ha
  rw [release_of_answered ha, release_of_answered ha']
  exact ⟨arming, hsuits, hdelivered, hsince, rfl⟩

theorem Arms.give (h : Arms since (base.rest (.ready ticket)) armed)
    (hs : base.Standing (.ready ticket)) (order : Order) :
    Arms since ((base.rest (.ready ticket)).give order.command order.event)
      (armed.give order.command order.event) := by
  obtain ⟨arming, hsuits, hdelivered, hsince, rfl⟩ := h
  exact (differsBy_give hs order.event_kind hsuits hdelivered).arms hsince

/-! ### Turns -/

theorem rank_interruptIf (h : Stage session) (delivered : Bool) :
    (session.interruptIf delivered).rank ≤ session.rank + if delivered then 6 else 0 := by
  cases delivered with
  | false => exact Nat.le_refl _
  | true =>
    obtain ⟨hbench, hcycle, hturns⟩ := interrupt_cases h
    show (session.put .interrupt).1.rank ≤ session.rank + 6
    rw [rank, rank, hbench, hcycle]
    rcases hturns with hturns | hturns <;> rw [hturns]
    · omega
    · rw [Turn.weights_append]
      simp only [Turn.weights, Turn.weight]
      omega

/-- An interrupt does not keep the dispatcher from its turn. -/
theorem finding?_interruptIf (h : Stage session) (hn : session.turns ≠ []) (delivered : Bool) :
    (session.interruptIf delivered).finding? = session.finding? := by
  cases delivered with
  | false => rfl
  | true =>
    obtain ⟨-, hcycle, hturns⟩ := interrupt_cases h
    show (session.put .interrupt).1.finding? = session.finding?
    rw [finding?, finding?, hcycle]
    rcases hturns with hturns | hturns <;> rw [hturns]
    rw [List.head?_append_of_ne_nil _ hn]

theorem OrderOnCourse.interruptIf {low : Nat}
    (h : OrderOnCourse start low order ended found session) (delivered : Bool) :
    OrderOnCourse start low order ended found (session.interruptIf delivered) := by
  cases delivered with
  | false => exact h
  | true => exact h.interrupt

/-- A turn of a session with tripwires is one of the session without, perhaps after an interrupt,
which costs a tripwire. -/
theorem Arms.exists_step (h : Arms since session armed) (hs : Stage session)
    (he : ∀ fault, session.engine ≠ .halted fault)
    (hf : ∀ cycle fault, session.ownCycle = some cycle → cycle.run ≠ .finished (some fault))
    (hp : ∃ events, session.bench.passage = .ok events) (hn : armed.step? = some next) :
    ∃ delivered reached, (session.interruptIf delivered).step? = some reached ∧
      Arms since reached next ∧ next.wires + (if delivered then 1 else 0) ≤ armed.wires := by
  obtain ⟨arming, hsuits, hundelivered, hsince, rfl⟩ := h
  obtain ⟨delivered, reached, hstep, hdiffersBy⟩ :=
    differsBy_step hs he hp hf hsuits hundelivered hn
  refine ⟨delivered, reached, hstep, hdiffersBy.arms hsince, ?_⟩
  obtain ⟨after, hprecedes, hdelivered, -, rfl⟩ := hdiffersBy
  -- tripwires are never added, and the one that was caught in this turn is gone
  have hwires : after.wires.length ≤ arming.wires.length := hprecedes.sublist.length_le
  show after.wires.length + _ ≤ arming.wires.length
  cases delivered with
  | false => exact hwires
  | true =>
    exact (hprecedes.spent hdelivered).resolve_left fun hr =>
      Bool.false_ne_true (hundelivered.symm.trans hr)

theorem turns_ne_nil_of_step (hn : session.step? = some next) : session.turns ≠ [] := by
  intro hnil
  rw [step?, hnil] at hn
  cases hn

theorem Arms.turns (h : Arms since session armed) : armed.turns = session.turns := by
  obtain ⟨arming, -, -, -, rfl⟩ := h
  rfl

theorem Arms.finding? (h : Arms since session armed) : armed.finding? = session.finding? := by
  obtain ⟨arming, -, -, -, rfl⟩ := h
  rfl

/-- An order keeps to its phases with a turn, and comes nearer to its end or loses tripwires. -/
theorem Arms.step {low : Nat} (h : Arms since session armed)
    (he : OrderOnCourse start low order ended found session) (hs : Outset start)
    (hn : armed.step? = some next) :
    ∃ reached, OrderOnCourse start low order ended (found.or armed.finding?) reached ∧
      Arms since reached next ∧
      reached.rank + 6 * next.wires < session.rank + 6 * armed.wires := by
  have hstage := he.orderPhase.stage
  obtain ⟨delivered, reached, hstep, harms, hwires⟩ := h.exists_step hstage
    he.orderPhase.engine_ne_halted he.orderPhase.unfailed
    (he.course.processable hs.processable).exists_passage hn
  have hturns : session.turns ≠ [] := h.turns ▸ turns_ne_nil_of_step hn
  have hreached := (he.interruptIf delivered).step hs hstep
  rw [finding?_interruptIf hstage hturns, ← h.finding?] at hreached
  refine ⟨reached, hreached, harms, ?_⟩
  -- an interrupt makes further turns, but no more than the tripwire that it costs weighs
  have hless := (descends_step (he.interruptIf delivered).orderPhase.stage hstep).2
  have hrank := rank_interruptIf hstage delivered
  cases delivered <;> simp at hrank hwires <;> omega

/-! ### Sessions at rest -/

theorem At.interrupt (h : At start base ticket session) :
    ∃ base', At start base' ticket (session.put .interrupt).1 ∧
      (session.put .interrupt).1.store.published = .interrupt :: session.store.published := by
  obtain ⟨rfl, hstanding, hidle, hreached⟩ := h
  rw [Base.rest, put_interrupt_calm hstanding.sound.order]
  exact ⟨_, ⟨rfl, standing_note hstanding _, hidle, hreached⟩, rfl⟩

theorem At.ticketed (h : At start base ticket session) :
    At start base.ticketed ticket session.ticketed := by
  obtain ⟨rfl, hstanding, hidle, hreached⟩ := h
  exact ⟨rfl, standing_ticketed hstanding, hidle, hreached⟩

theorem At.stage (h : At start base ticket session) : Stage session := by
  obtain ⟨rfl, hstanding, -, -⟩ := h
  exact .rest hstanding

theorem At.caller (h : At start base ticket session) : session.caller = .idle := by
  rw [h.eq_rest]
  rfl

theorem At.turns (h : At start base ticket session) : session.turns = [] := by
  rw [h.eq_rest]
  rfl

theorem Arms.refl (h : Stage session) : Arms [] session session := by
  obtain ⟨arming, hsuits, hdelivered, hwithTripwires⟩ := (ofSession_of_stage h).exists_withTripwires
  refine ⟨arming, hsuits, hdelivered, List.nil_suffix, ?_⟩
  rw [armedBy, onStore, hwithTripwires]

theorem Arms.caller (h : Arms since session armed) : armed.caller = session.caller := by
  obtain ⟨arming, -, -, -, rfl⟩ := h
  rfl

/-- A session rests, or an order is in one of its phases. -/
def InOrder (start : Workbench) (session : Session) : Prop :=
  (∃ base ticket, At start base ticket session) ∨
    ∃ low order ended found, OrderOnCourse start low order ended found session

theorem InOrder.stage (h : InOrder start session) : Stage session := by
  obtain ⟨base, ticket, h⟩ | ⟨low, order, ended, found, h⟩ := h
  · exact h.stage
  · exact h.orderPhase.stage

theorem InOrder.interrupt (h : InOrder start session) :
    InOrder start (session.put .interrupt).1 := by
  obtain ⟨base, ticket, h⟩ | ⟨low, order, ended, found, h⟩ := h
  · obtain ⟨base', hat, -⟩ := h.interrupt
    exact .inl ⟨base', ticket, hat⟩
  · exact .inr ⟨low, order, ended, found, h.interrupt⟩

theorem InOrder.ticketed (h : InOrder start session) : InOrder start session.ticketed := by
  obtain ⟨base, ticket, h⟩ | ⟨low, order, ended, found, h⟩ := h
  · exact .inl ⟨_, ticket, h.ticketed⟩
  · exact .inr ⟨low, order, ended, found, h.ticketed⟩

/-- A session without a caller rests. -/
theorem InOrder.exists_at (h : InOrder start session) (hi : session.caller = .idle) :
    ∃ base ticket, At start base ticket session := by
  obtain h | ⟨low, order, ended, found, h⟩ := h
  · exact h
  · exact absurd hi h.orderPhase.caller_ne_idle

/-- **Whatever has been asked of a session, it rests or an order is in one of its phases.** -/
theorem Onward.exists_arms (hs : Outset start) (h : At start base ticket origin)
    (ho : Onward origin armed) :
    ∃ session, Arms [] session armed ∧ InOrder start session := by
  -- on what was asked; the session without tripwires is asked the same, but for them
  induction ho with
  | origin => exact ⟨origin, .refl h.stage, .inl ⟨base, ticket, h⟩⟩
  | give _ hi order ih =>
    obtain ⟨session, harms, hsession⟩ := ih
    obtain ⟨base, ticket, hat⟩ := hsession.exists_at (harms.caller ▸ hi)
    have hgiven := hat.orderOnCourse_give order
    obtain rfl := hat.eq_rest
    exact ⟨_, harms.give hat.standing order, .inr ⟨_, _, _, _, hgiven⟩⟩
  | turn _ hn ih =>
    obtain ⟨session, harms, ⟨base, ticket, hat⟩ | ⟨low, order, ended, found, hroute⟩⟩ := ih
    · exact absurd (harms.turns.trans hat.turns) (turns_ne_nil_of_step hn)
    · obtain ⟨reached, hreached, harms', -⟩ := harms.step hroute hs hn
      exact ⟨reached, harms', .inr ⟨_, _, _, _, hreached⟩⟩
  | interrupt _ ih =>
    obtain ⟨session, harms, hsession⟩ := ih
    exact ⟨_, harms.interrupt hsession.stage, hsession.interrupt⟩
  | arm _ kind cursor ih =>
    obtain ⟨session, harms, hsession⟩ := ih
    exact ⟨_, harms.arm kind cursor, hsession.ticketed⟩
  | disarm _ ih =>
    obtain ⟨session, harms, hsession⟩ := ih
    exact ⟨session, harms.disarm, hsession⟩
  | release _ ha ih =>
    obtain ⟨session, harms, ⟨base, ticket, hat⟩ | ⟨low, order, ended, found, hroute⟩⟩ := ih
    · cases hat.caller.symm.trans (harms.caller.symm.trans ha)
    · have hanswered := harms.caller.symm.trans ha
      obtain ⟨interrupted, hover⟩ := hroute.orderPhase.commandOver_of_answered hanswered
      exact ⟨_, harms.release hanswered, .inl (hover.release hroute.course hanswered)⟩

/-! ### Races -/

/-- **A command keeps to the phases of its order, whatever interrupts come.** -/
theorem Race.orderOnCourse (hs : Outset start) (harms : Arms [] session here)
    (hat : At start base ticket session) (h : Race here order found armed) :
    ∃ later, OrderOnCourse start here.cursor order (ends here.store.published) found later ∧
      Arms here.store.published later armed := by
  induction h with
  | given =>
    -- what was published before is what both have published, apart from interrupts
    have hgiven := hat.orderOnCourse_give order
    obtain ⟨arming, hsuits, hundelivered, -, rfl⟩ := harms
    have hends : ends (session.armedBy arming).store.published = ends session.store.published :=
      ends_congr hsuits.published
    have hfirst : Arms (session.armedBy arming).store.published session (session.armedBy arming) :=
      ⟨arming, hsuits, hundelivered, List.suffix_refl _, rfl⟩
    rw [hends]
    obtain rfl := hat.eq_rest
    exact ⟨_, hgiven, hfirst.give hat.standing order⟩
  | turn _ hn ih =>
    obtain ⟨later, hroute, harms'⟩ := ih
    obtain ⟨reached, hreached, harms'', -⟩ := harms'.step hroute hs hn
    exact ⟨reached, hreached, harms''⟩
  | interrupt _ ih =>
    obtain ⟨later, hroute, harms'⟩ := ih
    exact ⟨_, hroute.interrupt, harms'.interrupt hroute.orderPhase.stage⟩
  | arm _ kind cursor ih =>
    obtain ⟨later, hroute, harms'⟩ := ih
    exact ⟨_, hroute.ticketed, harms'.arm kind cursor⟩
  | disarm _ ih =>
    obtain ⟨later, hroute, harms'⟩ := ih
    exact ⟨later, hroute, harms'.disarm⟩

theorem Race.steps {count : Nat} (h : Race here order found session)
    (hsteps : Steps count session later) : ∃ found', Race here order found' later := by
  induction hsteps generalizing found with
  | refl => exact ⟨found, h⟩
  | cons hn _ ih => exact ih (h.turn hn)

/-- It comes to where nothing can move. -/
theorem exists_steps_nil_of_orderOnCourse {low : Nat} (hs : Outset start)
    (h : OrderOnCourse start low order ended found session) (hr : Arms since session armed) :
    ∃ count last, Steps count armed last ∧ last.turns = [] := by
  -- induction on what the turns and the tripwires weigh
  induction hw : session.rank + 6 * armed.wires using Nat.strongRecOn generalizing
    session armed found with
  | _ n ih =>
    cases hn : armed.step? with
    | none =>
      refine ⟨0, armed, .refl armed, ?_⟩
      rw [step?] at hn
      split at hn
      · assumption
      · cases hn
    | some next =>
      obtain ⟨reached, hreached, harms, hless⟩ := hr.step h hs hn
      obtain ⟨count, last, hsteps, hnil⟩ := ih _ (hw ▸ hless) hreached harms rfl
      exact ⟨count + 1, last, .cons hn hsteps, hnil⟩

/-- What has been published since is told from the whole. -/
theorem reports_eq {events : List Event}
    (h : session.store.published = events ++ here.store.published) :
    session.reports here = (ends events).reverse := by
  rw [reports, chronicle, chronicle, h, List.reverse_append, List.drop_left', ends, ends,
    List.filter_reverse]
  rfl

/-- The end of a command is reported once, with what the dispatcher found about the race; until then
something can move. -/
theorem reports_of_orderOnCourse {low : Nat}
    (h : OrderOnCourse start low order (ends here.store.published) found later)
    (hr : Arms here.store.published later session) :
    here.chronicle <+: session.chronicle ∧
      ((session.reports here = [] ∧ session.turns ≠ []) ∨
        ∃ interrupted, found = some !interrupted ∧
          session.reports here = [.endStep order.command interrupted] ∧
          CommandOver order.command interrupted later) := by
  obtain ⟨events, hevents⟩ := hr.published
  have hreports := reports_eq hevents.symm
  have hends : ends events ++ ends here.store.published = ends later.store.published := by
    rw [← ends_append, hevents]
    exact ends_congr hr.withoutInterrupts
  refine ⟨List.reverse_prefix.mpr hr.published, ?_⟩
  rw [hreports, hr.turns]
  -- of what has been published since, the end of the command is the only one, or there is none
  rcases h.orderPhase.cases_end with ⟨he, hturns⟩ | ⟨interrupted, hw, he, hover⟩
  · rw [he] at hends
    have hnil : ends events = [] := List.append_left_eq_self.mp hends
    exact .inl ⟨by rw [hnil]; rfl, hturns⟩
  · have hone : ends events = [.endStep order.command interrupted] := by
      rw [he] at hends
      exact List.append_cancel_right (hends.trans rfl)
    exact .inr ⟨interrupted, hw, by rw [hone]; rfl, hover⟩

/-! ### Afterwards -/

/-- No command is under way, and nobody waits for one that is over, except for its answer. -/
def Calm (start : Workbench) (command : Command) (interrupted : Bool) (session : Session) : Prop :=
  CommandOver command interrupted session ∨ ∃ base ticket, At start base ticket session

section Calm

variable {command : Command} {interrupted : Bool}

theorem Calm.stage (h : Calm start command interrupted session) : Stage session := by
  obtain h | ⟨base, ticket, h⟩ := h
  · exact h.stage
  · exact h.stage

theorem Calm.interrupt (h : Calm start command interrupted session) :
    Calm start command interrupted (session.put .interrupt).1 ∧
      TraceDebugger.withoutInterrupts (session.put .interrupt).1.store.published
        = TraceDebugger.withoutInterrupts session.store.published := by
  obtain h | ⟨base, ticket, h⟩ := h
  · obtain ⟨hover, hpublished⟩ := h.interrupt
    exact ⟨.inl hover, by rw [hpublished]; rfl⟩
  · obtain ⟨base', hat, hpublished⟩ := h.interrupt
    exact ⟨.inr ⟨base', ticket, hat⟩, by rw [hpublished]; rfl⟩

theorem Calm.ticketed (h : Calm start command interrupted session) :
    Calm start command interrupted session.ticketed := by
  obtain h | ⟨base, ticket, h⟩ := h
  · exact .inl h.ticketed
  · exact .inr ⟨_, ticket, h.ticketed⟩

theorem CommandOver.interruptIf (h : CommandOver command interrupted session) (delivered : Bool) :
    CommandOver command interrupted (session.interruptIf delivered) ∧
      (session.interruptIf delivered).bench = session.bench ∧
      TraceDebugger.withoutInterrupts (session.interruptIf delivered).store.published
        = TraceDebugger.withoutInterrupts session.store.published := by
  cases delivered with
  | false => exact ⟨h, rfl, rfl⟩
  | true =>
    obtain ⟨hover, hpublished⟩ := h.interrupt
    obtain ⟨hbench, -, -⟩ := interrupt_cases h.stage
    refine ⟨hover, hbench, ?_⟩
    show TraceDebugger.withoutInterrupts (session.put .interrupt).1.store.published = _
    rw [hpublished]
    rfl

/-- Nothing moves with the turns that lead to the answer. -/
theorem CommandOver.arms_step (h : CommandOver command interrupted session) (hs : Outset start)
    (hc : start.OnCourse session.bench) (hr : Arms since session armed)
    (hn : armed.step? = some next) :
    ∃ reached, Arms since reached next ∧ CommandOver command interrupted reached ∧
      reached.bench = session.bench ∧
      TraceDebugger.withoutInterrupts reached.store.published =
        TraceDebugger.withoutInterrupts session.store.published := by
  obtain ⟨⟨channel, hengine, -⟩, -⟩ := h.served
  have hnone : session.ownCycle = none := by cases h <;> rfl
  -- no cycle is left, and the engine serves: nothing can fail in this turn
  obtain ⟨delivered, reached, hstep, harms, -⟩ := hr.exists_step h.stage
    (fun fault hh => by cases hengine.symm.trans hh)
    (fun cycle fault hcycle => by cases hnone.symm.trans hcycle)
    (hc.processable hs.processable).exists_passage hn
  obtain ⟨hover, hbench, htold⟩ := h.interruptIf delivered
  obtain ⟨hover', hstore⟩ := hover.step hstep
  refine ⟨reached, harms, hover', ?_, ?_⟩
  · rw [bench, hstore]
    exact hbench
  · rw [hstore]
    exact htold

/-- Without a command nothing moves. -/
theorem WithoutCommands.calm (hl : WithoutCommands armed later) (hs : Outset start)
    (hc : start.OnCourse session.bench) (hr : Arms [] session armed)
    (h : Calm start command interrupted session) :
    ∃ reached, Arms [] reached later ∧ Calm start command interrupted reached ∧
      reached.bench = session.bench ∧
      TraceDebugger.withoutInterrupts reached.store.published =
        TraceDebugger.withoutInterrupts session.store.published := by
  -- until the caller goes away with its answer, the command is over; from then on, the session
  -- rests
  induction hl with
  | refl => exact ⟨session, hr, h, rfl, rfl⟩
  | turn _ hn ih =>
    obtain ⟨reached, harms, hcalm, hbench, htold⟩ := ih
    obtain hover | ⟨base, ticket, hat⟩ := hcalm
    · obtain ⟨reached', harms', hover', hbench', htold'⟩ :=
        hover.arms_step hs (hbench ▸ hc) harms hn
      exact ⟨reached', harms', .inl hover', hbench'.trans hbench, htold'.trans htold⟩
    · exact absurd (harms.turns.trans hat.turns) (turns_ne_nil_of_step hn)
  | interrupt _ ih =>
    obtain ⟨reached, harms, hcalm, hbench, htold⟩ := ih
    obtain ⟨hbench', -, -⟩ := interrupt_cases hcalm.stage
    obtain ⟨hcalm', htold'⟩ := hcalm.interrupt
    exact ⟨_, harms.interrupt hcalm.stage, hcalm', hbench'.trans hbench, htold'.trans htold⟩
  | arm _ kind cursor ih =>
    obtain ⟨reached, harms, hcalm, hbench, htold⟩ := ih
    exact ⟨_, harms.arm kind cursor, hcalm.ticketed, hbench, htold⟩
  | disarm _ ih =>
    obtain ⟨reached, harms, hcases⟩ := ih
    exact ⟨reached, harms.disarm, hcases⟩
  | release _ ha ih =>
    obtain ⟨reached, harms, hcalm, hbench, htold⟩ := ih
    have hanswered := harms.caller.symm.trans ha
    have hrelease := release_of_answered hanswered
    obtain hover | ⟨base, ticket, hat⟩ := hcalm
    · have hrest : ∃ base ticket, At start base ticket reached.release :=
        hover.release (hbench ▸ hc) hanswered
      refine ⟨_, harms.release hanswered, .inr hrest, ?_, ?_⟩ <;> rw [hrelease]
      · exact hbench
      · exact htold
    · cases hat.caller.symm.trans hanswered

end Calm

/-! ### What is left of an interrupt -/

/-- What has been published since an earlier moment. -/
theorem drop_chronicle {base base' : Base} {host host' : Host} {events : List Event}
    (hp : base'.published = events.reverse ++ base.published) :
    (base'.rest host').chronicle.drop (base.rest host).chronicle.length = events := by
  show base'.published.reverse.drop base.published.reverse.length = events
  rw [hp, List.reverse_append, List.reverse_reverse, List.drop_left]

/-- Sessions that are equally far show the same of all orders. -/
theorem At.shown_eq (hs : Outset start) (orders : List Order) :
    ∀ {base base' : Base} {ticket ticket' : Ticket} {session here : Session},
      At start base ticket session → At start base' ticket' here → session.cursor = here.cursor →
        session.shown orders = here.shown orders := by
  induction orders with
  | nil => exact fun _ _ _ => rfl
  | cons order rest ih =>
    intro base base' ticket ticket' session here h h' hc
    -- the first order leads both equally far again
    obtain ⟨blocks, reached, reached', base₁, ticket₁, base₂, ticket₂, houtcome, hnext, hnext',
      hlast, hleft, hleft'⟩ := h.exists_both hs h' hc order
    have hsame : (session.carryOut order).1.chronicle.drop session.chronicle.length
        = (here.carryOut order).1.chronicle.drop here.chronicle.length := by
      rw [hnext.eq_rest, hnext'.eq_rest, h.eq_rest, h'.eq_rest, drop_chronicle hleft.published,
        drop_chronicle hleft'.published]
    have hrest := ih hnext hnext' (congrArg (·.cursor) (Workbench.recording_congr hlast))
    rw [shown, shown]
    dsimp only
    rw [houtcome, hsame, Workbench.slices_congr hlast, hrest]

/-- Single advances lead to wherever a course does. -/
theorem At.exists_view (hs : Outset start) (h : At start base ticket origin)
    (hc : origin.cursor = 0) {bench : Workbench} (hb : start.OnCourse bench) :
    ∃ base' ticket', At start base' ticket'
        (origin.obey (List.replicate bench.recording.cursor .advance)) ∧
      (origin.obey (List.replicate bench.recording.cursor .advance)).cursor
        = bench.recording.cursor := by
  obtain ⟨⟨base', ticket', hview⟩, -⟩ :=
    At.obey hs (List.replicate bench.recording.cursor .advance) h
  refine ⟨base', ticket', hview, ?_⟩
  have hle := bench.recording.cursor_le
  obtain ⟨reached, hreached, hcore⟩ := hb
  obtain ⟨-, hsteps, -⟩ := hs.poised.advanceBy hreached
  rw [← Workbench.recording_congr hcore, hsteps] at hle
  rw [At.cursor_obey_advances hs _ h, hc, Nat.zero_add, ← Workbench.recording_congr hcore,
    Nat.min_eq_left hle]

theorem At.onCourse (h : At start base ticket session) : start.OnCourse session.bench := by
  obtain ⟨rfl, -, -, hreached⟩ := h
  exact hreached

theorem Arms.bench (h : Arms since session armed) : armed.bench = session.bench := by
  obtain ⟨arming, -, -, -, rfl⟩ := h
  rfl

/-- Without tripwires, a session at rest is one that no interrupt was published in. -/
theorem Arms.at_of_unwired (h : Arms since session armed) (hat : At start base ticket session)
    (hw : armed.store.tripwires = []) : ∃ base', At start base' ticket armed := by
  obtain ⟨rfl, hstanding, hidle, hreached⟩ := hat
  obtain ⟨arming, -, -, -, rfl⟩ := h
  have hwires : arming.wires = [] := hw
  refine ⟨{ base with published := arming.published }, ?_, ?_, hidle, hreached⟩
  · rw [armedBy, onStore, Store.withTripwires, hwires]
    rfl
  · obtain ⟨⟨hloaded, horder, hheld, hfresh⟩, hactive, hservice, hticket⟩ := hstanding
    exact ⟨⟨hloaded, horder, hheld, hfresh⟩, hactive, hservice, hticket⟩

/-- **A command that is over has drained.** -/
theorem drained_of_commandOver {low : Nat} (hs : Outset start) (h : At start base ticket origin)
    (hc : origin.cursor = 0) (hroute : OrderOnCourse start low order ended found session)
    {interrupted : Bool} (hover : CommandOver order.command interrupted session)
    (hr : Arms since session armed) (hlow : here.cursor ≤ low) : Drained origin here armed := by
  have hbench := hr.bench
  have hcursor : armed.cursor = session.bench.recording.cursor := by rw [cursor, hbench]
  obtain ⟨base', ticket', hview, hviewed⟩ := h.exists_view hs hc hroute.course
  have hcore := hroute.course.core_eq hview.onCourse hviewed.symm
  obtain ⟨⟨channel, hengine, hwaiting⟩, hheld⟩ := hover.served
  have hcalm {later : Session} (hl : WithoutCommands armed later) :=
    hl.calm hs hroute.course (hr.mono List.nil_suffix) (.inl hover)
  -- what the single advances lead to is compared with the session as it is without tripwires
  refine ⟨?_, ?_, ?_, ?_, fun later hl => ?_, fun later hl hi hw orders => ?_⟩
  · obtain ⟨arming, -, -, -, rfl⟩ := hr
    exact ⟨channel, hengine, hwaiting⟩
  · rw [hbench]
    exact hheld
  · rw [viewAt, hcursor, hbench]
    exact Workbench.slices_congr hcore
  · rw [hcursor]
    exact Nat.le_trans hlow hroute.low_le
  · obtain ⟨reached, harms, -, hbench', htold⟩ := hcalm hl
    refine ⟨harms.bench.trans (hbench'.trans hbench.symm), ?_⟩
    rw [chronicle, chronicle, withoutInterrupts_reverse, withoutInterrupts_reverse,
      harms.withoutInterrupts.trans (htold.trans hr.withoutInterrupts.symm)]
  · obtain ⟨reached, harms, hreached | ⟨base₁, ticket₁, hat⟩, hbench', -⟩ := hcalm hl
    · -- a session whose caller is idle rests, and so it shows what the advances show
      exact absurd (harms.caller.symm.trans hi) hreached.caller_ne_idle
    · obtain ⟨base₂, hat'⟩ := harms.at_of_unwired hat hw
      rw [hcursor]
      refine hat'.shown_eq hs orders hview ?_
      rw [hviewed, cursor, harms.bench, hbench']

/-- **Commands drain.** Whatever has been asked of a session since it loaded a trace whose steps
are processed, an order is given to it when none is pending, and interrupts are published from
outside or by listeners at any moment.  Then the end of the command comes; it is published once, and
it tells that the command was interrupted exactly if the pursuit was not over when the dispatcher
learnt that the race was decided.  From then on the command has drained. -/
theorem race_drains (hl : Loaded origin) (hp : origin.Processes) (ho : Onward origin here)
    (hi : here.caller = .idle) (order : Order) (h : Race here order found session) :
    here.chronicle <+: session.chronicle ∧
    (∃ count last interrupted, Steps count session last ∧ last.turns = [] ∧
      Race here order (some !interrupted) last ∧
      last.caller = .answered (.ok (.flag !interrupted)) ∧
      last.reports here = [.endStep order.command interrupted]) ∧
    (session.reports here = [] ∨ ∃ interrupted, found = some !interrupted ∧
      session.reports here = [.endStep order.command interrupted] ∧
      Drained origin here session) := by
  obtain ⟨start, base, ticket, hs, hat, hcursor, -⟩ := hl.outset hp
  -- without its tripwires the session rests before the order is given, and has come as far with it
  obtain ⟨plain, harms, hplain⟩ := ho.exists_arms hs hat
  obtain ⟨base', ticket', hrest⟩ := hplain.exists_at (harms.caller ▸ hi)
  obtain ⟨later, hroute, hlater⟩ := h.orderOnCourse hs harms hrest
  obtain ⟨hgrown, hreports⟩ := reports_of_orderOnCourse hroute hlater
  refine ⟨hgrown, ?_, ?_⟩
  · -- the turns that lead to the end are part of the race
    obtain ⟨count, last, hsteps, hnil⟩ := exists_steps_nil_of_orderOnCourse hs hroute hlater
    obtain ⟨found', hrace⟩ := h.steps hsteps
    obtain ⟨reached, hroute', hreached⟩ := hrace.orderOnCourse hs harms hrest
    obtain ⟨-, ⟨-, hturns⟩ | ⟨interrupted, rfl, hone, hover⟩⟩ :=
      reports_of_orderOnCourse hroute' hreached
    · exact absurd hnil hturns
    · have hanswered := hover.answered_of_nil (hreached.turns.symm.trans hnil)
      exact ⟨count, last, interrupted, hsteps, hnil, hrace, hreached.caller.trans hanswered, hone⟩
  · obtain ⟨hnone, -⟩ | ⟨interrupted, hw, hone, hover⟩ := hreports
    · exact .inl hnone
    · exact .inr ⟨interrupted, hw, hone,
        drained_of_commandOver hs hat hcursor hroute hover hlater (Nat.le_refl _)⟩

/-- A session that is interrupted while it processes its second step. -/
def interruptedAtTick : Session := brief.onStore (Store.arm .tick (some 1) .interrupt)

theorem brief_race_drains :
    Loaded brief ∧ brief.Processes ∧ Onward brief interruptedAtTick ∧
      interruptedAtTick.caller = .idle ∧
      ∃ session, Race interruptedAtTick (.continueUntil []) (some false) session ∧
        session.reports interruptedAtTick = [.endStep .continueUntil true] ∧
          Drained brief interruptedAtTick session := by
  have hidle : interruptedAtTick.caller = .idle := loaded_brief.idle
  have honward : Onward brief interruptedAtTick := .arm .origin .tick (some 1)
  let order : Order := .continueUntil []
  let session := (interruptedAtTick.give order.command order.event).settle
  obtain ⟨count, hsteps⟩ :
      ∃ count, Steps count (interruptedAtTick.give order.command order.event) session :=
    exists_steps_runFor _ _
  have hgiven :
      Race interruptedAtTick order none (interruptedAtTick.give order.command order.event) := .given
  obtain ⟨found, hrace⟩ := hgiven.steps hsteps
  -- the whole run is evaluated only for whether the end is that of an interrupted command
  have hends : (session.reports interruptedAtTick).map (fun event => event.payload.interrupted)
      = [some true] := by
    decide +kernel
  obtain ⟨-, -, hnone | ⟨interrupted, rfl, hone, hdrained⟩⟩ :=
    race_drains loaded_brief processes_brief honward hidle order hrace
  · rw [hnone] at hends
    cases hends
  · rw [hone] at hends
    obtain rfl : interrupted = true :=
      Option.some.inj (List.cons.inj (show [some interrupted] = [some true] from hends)).1
    exact ⟨loaded_brief, processes_brief, honward, hidle, session, hrace, hone, hdrained⟩

end Session

end TraceDebugger
