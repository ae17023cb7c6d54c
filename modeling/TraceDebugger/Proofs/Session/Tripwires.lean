/-
Sessions whose listeners publish interrupts.

A session may have tripwires that publish interrupts (`armedBy`).  Whatever it does then, the same
session without tripwires does too, if the interrupt that is published inside, if any, is published
before (`interruptIf`): the armed session is left like the other one, with some of its tripwires
used up (`DiffersBy`).

* `differsBy_attempt` — a change that leads both stores to the same place leads both sessions there;
* `attempt_armedBy_of_not_awaits` — an interrupt inside a change makes no difference where nobody
  waits for one;
* `Listening.attempt_armedBy`, `Carries.attempt_armedBy` — to a command under way it is one that
  came before the change.
-/
import TraceDebugger.Proofs.Session.Turned
import TraceDebugger.Proofs.Store.Upkeep

namespace TraceDebugger.Session

variable {session : Session} {base : Base} {job : Job} {turns : List Turn} {event : Event}

/-! ### Who is told something -/

section Told

variable (session) (ticket : Ticket) (store : Store)

theorem tellEngine_withStore (event : Event) :
    (session.withStore store).tellEngine ticket event
      = (session.tellEngine ticket event).withStore store := by
  have hengine : (session.withStore store).engine = session.engine := rfl
  rw [tellEngine, tellEngine, hengine]
  cases session.engine with
  | awaitingTrace awaited => dsimp only; split <;> rfl
  | _ => rfl

theorem tellDispatcher_withStore (event : Event) :
    (session.withStore store).tellDispatcher ticket event
      = (session.tellDispatcher ticket event).withStore store := by
  have hdispatcher : (session.withStore store).dispatcher = session.dispatcher := rfl
  rw [tellDispatcher, tellDispatcher, hdispatcher]
  cases session.dispatcher with
  | awaitingCommand awaited => dsimp only; split <;> rfl
  | _ => rfl

theorem tellLane_withStore (lane : Lane) :
    (session.withStore store).tellLane ticket lane
      = (session.tellLane ticket lane).withStore store := by
  have hcycle : (session.withStore store).cycle? lane = session.cycle? lane := by
    cases lane <;> rfl
  rw [tellLane, tellLane, hcycle]
  cases session.cycle? lane with
  | none => rfl
  | some cycle =>
    dsimp only
    -- the interrupt of the cycle, or what its command waits for
    split
    · split <;> rfl
    · cases cycle.run with
      | waiting awaited pursuit =>
        dsimp only
        split
        · cases lane <;> rfl
        · rfl
      | _ => rfl

theorem tellCaller_withStore :
    (session.withStore store).tellCaller ticket = (session.tellCaller ticket).withStore store := by
  have hcaller : (session.withStore store).caller = session.caller := rfl
  rw [tellCaller, tellCaller, hcaller]
  cases session.caller with
  | loading => dsimp only; split <;> rfl
  | commanding => dsimp only; split <;> rfl
  | _ => rfl

end Told

/-- Who is told of an event does not depend on the store, but for the event. -/
theorem tell_withStore (session : Session) {store : Store} {notice : Notice}
    (h : ∀ ticket, notice = .taken ticket → store.outcome? ticket = session.store.outcome? ticket) :
    (session.withStore store).tell notice = (session.tell notice).withStore store := by
  cases notice with
  | delivered channel =>
    have hengine : (session.withStore store).engine = session.engine := rfl
    rw [tell, tell, hengine]
    cases session.engine with
    | awaitingRequest awaited => dsimp only; split <;> rfl
    | _ => rfl
  | taken ticket =>
    rw [tell, tell, show (session.withStore store).store.outcome? ticket = _ from h ticket rfl]
    cases session.store.outcome? ticket with
    | none => rfl
    | some event =>
      dsimp only
      rw [tellEngine_withStore, tellDispatcher_withStore, tellLane_withStore, tellLane_withStore,
        tellCaller_withStore]

theorem store_tell (session : Session) (notice : Notice) :
    (session.tell notice).store = session.store := by
  have h : (session.withStore session.store).tell notice
      = (session.tell notice).withStore session.store := tell_withStore session fun _ _ => rfl
  have hstore := congrArg Session.store h
  exact hstore

theorem foldl_tell_withStore {store : Store} {notices : List Notice} : ∀ {session : Session},
    (∀ ticket, .taken ticket ∈ notices → store.outcome? ticket = session.store.outcome? ticket) →
      notices.foldl tell (session.withStore store)
        = (notices.foldl tell session).withStore store := by
  induction notices with
  | nil => exact fun _ => rfl
  | cons notice notices ih =>
    intro session h
    rw [List.foldl_cons, List.foldl_cons,
      tell_withStore session fun ticket hn => h ticket (hn ▸ List.mem_cons_self)]
    refine ih fun ticket hm => ?_
    rw [store_tell]
    exact h ticket (List.mem_cons_of_mem _ hm)

theorem store_foldl_tell (notices : List Notice) : ∀ session : Session,
    (notices.foldl tell session).store = session.store := by
  induction notices with
  | nil => exact fun _ => rfl
  | cons notice notices ih =>
    intro session
    rw [List.foldl_cons, ih, store_tell]

/-! ### Sessions with tripwires -/

/-- The session with tripwires. -/
def armedBy (arming : Arming) (session : Session) : Session :=
  session.onStore (Store.withTripwires arming)

/-- The session after an interrupt has been published, if one is. -/
def interruptIf (delivered : Bool) (session : Session) : Session :=
  if delivered then (session.put .interrupt).1 else session

/-- What is left of a session with tripwires is another session with what is left of them; an
interrupt that was published inside has cost one. -/
def DiffersBy (arming : Arming) (delivered : Bool) (session armed : Session) : Prop :=
  ∃ after : Arming, arming.Precedes after ∧ after.delivered = delivered ∧
    after.Suits session.store ∧
    armed = session.armedBy after

theorem tellAll_armedBy (arming : Arming) (session : Session) :
    (session.armedBy arming).tellAll = session.tellAll.armedBy arming := by
  let cleared : Store := { session.store with notices := [] }
  have hstore : session.tellAll.store = cleared := store_foldl_tell _ _
  have htold : session.store.notices.foldl tell
        ((session.withStore cleared).withStore (cleared.withTripwires arming))
      = session.tellAll.withStore (cleared.withTripwires arming) :=
    foldl_tell_withStore fun _ _ => rfl
  show session.store.notices.foldl tell
    ((session.withStore cleared).withStore (cleared.withTripwires arming)) = _
  rw [htold, armedBy, onStore, hstore]
  rfl

/-- A change that leads a store with tripwires where it leads the store without them does so for the
whole session. -/
theorem differsBy_attempt {change : StoreM Unit} {last : Store} {arming after quiet : Arming}
    (harmed : change (session.store.withTripwires arming) = .ok () (last.withTripwires after))
    (hplain : change session.store = .ok () (last.withTripwires quiet)) (hf : arming.Precedes after)
    (hr : ∀ wire ∈ after.wires, wire.event = .interrupt)
    (ht : withoutInterrupts after.published = withoutInterrupts quiet.published) :
    ∃ reached armed, session.attempt change = (reached, none) ∧
      (session.armedBy arming).attempt change = (armed, none) ∧
      DiffersBy arming after.delivered reached armed := by
  refine ⟨_, _, attempt_ok hplain, attempt_ok harmed, after, hf, rfl, ⟨hr, ?_⟩, ?_⟩
  · have hstore : (session.withStore (last.withTripwires quiet)).tellAll.store
        = { last.withTripwires quiet with notices := [] } := store_foldl_tell _ _
    rw [hstore, ht]
    rfl
  · rw [← tellAll_armedBy]
    rfl

/-- Where nobody waits for an interrupt, one that is published inside makes no difference. -/
theorem attempt_armedBy_of_not_awaits {change : StoreM Unit} {last : Store} {arming : Arming}
    (hp : ∀ bound, Store.PublishesUnder bound change session.store last event)
    (ht : session.store.tripwires = []) (ha : ¬ last.Awaits EventKind.interrupt)
    (hs : arming.Suits session.store) (hr : arming.delivered = false) :
    ∃ reached armed, session.attempt change = (reached, none) ∧
      (session.armedBy arming).attempt change = (armed, none) ∧
      DiffersBy arming false reached armed := by
  obtain ⟨after, hprecedes, hsuits, hact⟩ := hp _ arming hs (Nat.le_refl _)
  obtain ⟨quiet, htold, hplain⟩ := (hp 0).plain ht
  have hlast : last.interruptIf after.delivered = last := by
    cases after.delivered with
    | false => rfl
    | true => exact Store.deliver_of_not_awaits ha
  rw [hlast, Store.armedBy_of_not_delivered hr] at hact
  -- nobody has noticed the interrupt, so the arming that is left counts as one without it
  let undelivered : Arming := { after with delivered := false }
  have hundelivered : arming.Precedes undelivered :=
    ⟨hprecedes.sublist, hprecedes.grows, fun hs => absurd (hr.symm.trans hs) Bool.false_ne_true,
      fun hs => absurd hs Bool.false_ne_true⟩
  have hact' : change (session.store.withTripwires arming)
      = .ok () ((last.deliver event).withTripwires undelivered) := hact
  exact differsBy_attempt hact' hplain hundelivered hsuits.interrupts
    (hsuits.published.trans htold.symm)

/-! ### The interrupt of a command under way -/

variable {cycle : Cycle} {reply : Ticket} {before after : List Taker}

theorem ofSession_store (ho : base.bench.order = slices) {takers : List Taker}
    (ht : ∀ taker ∈ takers, ∀ kind ∈ EventKind.tick :: EventKind.derived, kind ∉ taker.kinds) :
    (base.store takers).OfSession := by
  refine ⟨⟨rfl, ho, rfl⟩, unwatched_of_takers base ht, fun channel hc => ?_⟩
  obtain rfl := List.mem_singleton.mp hc
  exact (by decide : EventKind.interrupt ∉ [EventKind.next])

theorem mem_of_mem_others {other taker : Taker} (h : taker ∈ before ++ after) :
    taker ∈ before ++ other :: after :=
  ((List.sublist_cons_self other after).append_left before).subset h

section Listening

variable {change : StoreM Unit} {bench : Workbench} {events : List Event} {arming left : Arming}

theorem Listening.interruptIf (h : session.Listening base cycle reply before after) :
    session.interruptIf true
      = (session.withStore ((base.tookInterrupt cycle.interrupt).store (before ++ after))).later
        (.race .own) :=
  congrArg Prod.fst h.put_interrupt

/-- The interrupt is delivered inside a change, and the notice of that comes before all others. -/
theorem Listening.deliver_interruptIf (h : session.Listening base cycle reply before after)
    {reached : Store}
    (hr : reached
      = (((base.tookInterrupt cycle.interrupt).store (before ++ after)).record bench
        events).deliver event) :
    (((session.store.record bench events).interruptIf true).deliver event).withTripwires left
      = { reached.withTripwires left with
          notices := .taken cycle.interrupt :: reached.notices } := by
  have hticket : ((base.publish bench events).store
        (before ++ ⟨cycle.interrupt, [.interrupt]⟩ :: after)).deliver .interrupt
      = ((base.publish bench events).took cycle.interrupt .interrupt).storeTelling (before ++ after)
          (.taken cycle.interrupt) :=
    Base.deliver_taken (List.mem_singleton_self _) h.others (by decide)
  rw [hr, h.store]
  exact congrArg (fun store => (store.deliver event).withTripwires left) hticket

/-- A change inside which the interrupt was delivered leads where the same change leads after the
interrupt. -/
theorem Listening.attempt_delivered (h : session.Listening base cycle reply before after)
    {reached : Store} {quiet : Arming}
    (hreached : reached
      = (((base.tookInterrupt cycle.interrupt).store (before ++ after)).record bench
        events).deliver event)
    (hticket : ∀ taker ∈ before ++ after, event.kind ∈ taker.kinds → taker.ticket ≠ cycle.interrupt)
    (hact : change (session.store.withTripwires arming)
      = .ok ()
        ((((session.store.record bench events).interruptIf true).deliver event).withTripwires left))
    (hquiet : change ((base.tookInterrupt cycle.interrupt).store (before ++ after))
      = .ok () (reached.withTripwires quiet))
    (hf : arming.Precedes left) (hdelivered : left.delivered = true)
    (hr : ∀ wire ∈ left.wires, wire.event = .interrupt)
    (ht : withoutInterrupts left.published = withoutInterrupts quiet.published) :
    ∃ after armed, (session.interruptIf true).attempt change = (after, none) ∧
      (session.armedBy arming).attempt change = (armed, none) ∧
      DiffersBy arming true after armed := by
  rw [h.deliver_interruptIf hreached] at hact
  let interrupts :=
    (session.withStore ((base.tookInterrupt cycle.interrupt).store (before ++ after))).later
      (.race .own)
  have hinterrupts : interrupts.attempt change
      = ((interrupts.withStore (reached.withTripwires quiet)).tellAll, none) := attempt_ok hquiet
  refine ⟨_, _, (congrArg (attempt change) h.interruptIf).trans hinterrupts, attempt_ok hact,
    left, hf, hdelivered, ⟨hr, ?_⟩, ?_⟩
  · have hstore : (interrupts.withStore (reached.withTripwires quiet)).tellAll.store
        = { reached.withTripwires quiet with notices := [] } := store_foldl_tell _ _
    rw [hstore]
    exact ht
  · -- that notice is passed on first, to the cycle, which is then as it is after the interrupt
    let cleared : Store := { reached.withTripwires left with notices := [] }
    have hunderway : (session.withStore cleared).Underway cycle reply :=
      ⟨h.engine, h.dispatcher, h.ownCycle, h.directCycle, h.caller⟩
    have houtcome :
        (session.withStore cleared).store.outcome? cycle.interrupt = some .interrupt := by
      subst hreached
      exact (Store.outcome?_deliver hticket).trans (Base.outcome?_took _ (before ++ after) _ _)
    rw [← tellAll_armedBy]
    show reached.notices.foldl tell ((session.withStore cleared).tell (.taken cycle.interrupt)) = _
    rw [tell_underway hunderway houtcome h.reply_ne
      (tellLane_interrupt hunderway.ownCycle rfl h.stopping) h.directCycle h.caller]
    rfl

/-- An interrupt that is published inside a change of a command under way might as well have come
before it. -/
theorem Listening.attempt_armedBy (h : session.Listening base cycle reply before after)
    (ht : ∀ taker ∈ before ++ ⟨cycle.interrupt, [.interrupt]⟩ :: after,
      ∀ kind ∈ EventKind.tick :: EventKind.derived, kind ∉ taker.kinds)
    (hp : ∀ {base' : Base} {takers : List Taker}, base'.bench = base.bench →
      (base'.store takers).OfSession →
      ∀ bound, Store.PublishesUnder bound change (base'.store takers)
        ((base'.store takers).record bench events) event)
    (hticket : ∀ taker ∈ before ++ after, event.kind ∈ taker.kinds → taker.ticket ≠ cycle.interrupt)
    (hs : arming.Suits session.store) (hr : arming.delivered = false) :
    ∃ delivered reached armed, (session.interruptIf delivered).attempt change = (reached, none) ∧
      (session.armedBy arming).attempt change = (armed, none) ∧
      DiffersBy arming delivered reached armed := by
  have hplain := ofSession_store h.order ht
  have hpublishes := fun bound => hp rfl hplain bound
  rw [← h.store] at hpublishes
  obtain ⟨left, hprecedes, hsuits, hact⟩ := hpublishes _ arming hs (Nat.le_refl _)
  rw [Store.armedBy_of_not_delivered hr] at hact
  cases hdelivered : left.delivered with
  | false =>
    -- no tripwire was set off: the change does the same with and without them
    obtain ⟨quiet, htold, hquiet⟩ := (hpublishes 0).plain (by rw [h.store]; rfl)
    rw [hdelivered] at hact
    have hdiffersBy := differsBy_attempt hact hquiet hprecedes hsuits.interrupts
      (hsuits.published.trans htold.symm)
    rw [hdelivered] at hdiffersBy
    exact ⟨false, hdiffersBy⟩
  | true =>
    -- the change is compared with the same change of the session that has heard the interrupt
    have horder : (base.tookInterrupt cycle.interrupt).bench.order = slices := h.order
    have hheard : ((base.tookInterrupt cycle.interrupt).store (before ++ after)).OfSession :=
      ofSession_store horder fun taker htaker => ht taker (mem_of_mem_others htaker)
    have hbench : (base.tookInterrupt cycle.interrupt).bench = base.bench := rfl
    obtain ⟨quiet, htold, hquiet⟩ := (hp hbench hheard 0).plain rfl
    -- apart from the interrupt, the same has been published
    have hinterrupt : withoutInterrupts (events.reverse ++ .interrupt :: base.published)
        = withoutInterrupts (events.reverse ++ base.published) := by
      rw [withoutInterrupts_append, withoutInterrupts_append]
      rfl
    have hpublished : session.store.published = base.published := by rw [h.store]; rfl
    have hsame : withoutInterrupts left.published = withoutInterrupts quiet.published := by
      rw [hsuits.published, Store.record, hpublished]
      exact hinterrupt.symm.trans htold.symm
    rw [hdelivered] at hact
    exact ⟨true, h.attempt_delivered rfl hticket hact hquiet hprecedes hdelivered hsuits.interrupts
      hsame⟩

end Listening

/-! ### Changes of a command under way -/

theorem takers_of_unheard (hr : job.heard = false) :
    job.takers = [⟨job.reply, [.endStep]⟩]
      ++ ⟨job.cycle.interrupt, [.interrupt]⟩ :: job.cycle.run.takers := by
  rw [Job.takers, Job.interruptTakers, hr]
  rfl

/-- A session that has the cycle of a command, and the takers of the command as it may be a moment
later. -/
structure Carries (session : Session) (base : Base) (cycle : Cycle) (job : Job) : Prop
    extends session.Underway cycle job.reply where
  store : session.store = base.store job.takers
  sound : job.Sound base
  interrupt : cycle.interrupt = job.cycle.interrupt
  stopping : job.heard = false → cycle.stopping = false

theorem Carries.listening (h : session.Carries base cycle job) (hr : job.heard = false) :
    session.Listening base cycle job.reply [⟨job.reply, [.endStep]⟩] job.cycle.run.takers := by
  refine ⟨h.toUnderway, ?_, h.sound.sound.order, h.stopping hr, ?_, ?_⟩
  · rw [h.store, takers_of_unheard hr, h.interrupt]
  · rw [h.interrupt]
    exact Nat.ne_of_lt h.sound.reply_lt
  · intro taker ht hk
    have hhear : taker ∈ job.hear.takers := ht
    cases not_interrupt_of_mem_takers hhear hk

theorem unwatched_of_mem_takers : ∀ taker ∈ job.takers,
    ∀ kind ∈ EventKind.tick :: EventKind.derived, kind ∉ taker.kinds := by
  intro taker ht
  rcases Job.kinds_of_mem_takers ht with h | ⟨h, -⟩ | ⟨h, -⟩ <;> rw [h] <;> decide

theorem not_awaits_interrupt (hr : job.heard = true) (base : Base) :
    ¬ (base.store job.takers).Awaits EventKind.interrupt := by
  rw [Base.awaits_store_iff]
  rintro (⟨taker, ht, hk⟩ | ⟨-, hk⟩)
  · rw [not_interrupt_of_mem_takers ht hk] at hr
    cases hr
  · cases hk

/-- An interrupt that is published inside a change of a command under way might as well have come
before it, whether one has been heard already or not. -/
theorem Carries.attempt_armedBy (h : session.Carries base cycle job) {change : StoreM Unit}
    {bench : Workbench} {events : List Event}
    (hp : ∀ {base' : Base} {takers : List Taker}, base'.bench = base.bench →
      (base'.store takers).OfSession →
      ∀ bound, Store.PublishesUnder bound change (base'.store takers)
        ((base'.store takers).record bench events) event)
    (hticket : ∀ taker ∈ job.takers, event.kind ∈ taker.kinds → taker.ticket ≠ cycle.interrupt)
    {arming : Arming} (hs : arming.Suits session.store) (hr : arming.delivered = false) :
    ∃ delivered reached armed, (delivered = true → job.heard = false) ∧
      (session.interruptIf delivered).attempt change = (reached, none) ∧
      (session.armedBy arming).attempt change = (armed, none) ∧
      DiffersBy arming delivered reached armed := by
  -- if the interrupt has been heard, another one reaches nobody, and so it need not be delivered
  cases hheard : job.heard with
  | true =>
    have hplain : session.store.OfSession := by
      rw [h.store]
      exact ofSession_store h.sound.sound.order unwatched_of_mem_takers
    have hpublishes (bound : Nat) : Store.PublishesUnder bound change session.store
        (session.store.record bench events) event := by
      rw [h.store] at hplain ⊢
      exact hp rfl hplain bound
    have hnobody : ¬ (session.store.record bench events).Awaits EventKind.interrupt := by
      rw [h.store]
      exact not_awaits_interrupt hheard base
    obtain ⟨reached, armed, hreached, harmed, hdiffersBy⟩ :=
      attempt_armedBy_of_not_awaits hpublishes hplain.tripwires hnobody hs hr
    exact ⟨false, reached, armed, fun hs => absurd hs Bool.false_ne_true, hreached, harmed,
      hdiffersBy⟩
  | false =>
    have hlistening := h.listening hheard
    have hunwatched := @unwatched_of_mem_takers job
    rw [takers_of_unheard hheard, ← h.interrupt] at hunwatched
    -- whoever else is told of the event is told under another ticket than that of the interrupt
    have hothers : ∀ taker ∈ [⟨job.reply, [.endStep]⟩] ++ job.cycle.run.takers,
        event.kind ∈ taker.kinds → taker.ticket ≠ cycle.interrupt := by
      intro taker ht
      refine hticket taker ?_
      rw [takers_of_unheard hheard]
      exact mem_of_mem_others ht
    obtain ⟨delivered, reached, armed, hall⟩ :=
      hlistening.attempt_armedBy hunwatched hp hothers hs hr
    exact ⟨delivered, reached, armed, fun _ => rfl, hall⟩

end TraceDebugger.Session
