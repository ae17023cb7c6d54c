/-
What an interrupt does to the command under way.

The dispatcher begins to wait for an interrupt when the beginning of a cycle has been published.
From then on one is heard: at most two steps are processed before the end of the cycle is published,
wherever in its turns the command is.  One that is published with the beginning of the cycle,
however, is heard by nobody.

* `Store.leavesWaiting_put` — whoever still waits after a publication waits for nothing that was
  published inside;
* `Turned.movesWithin` — a command that has heard an interrupt moves within the steps that are left
  for it, turn by turn;
* `Interrupts.exists_boundedBy`, `BoundedBy.withoutCommands` — an interrupt that is published while
  a cycle is under way is heard, and the command stays within its bound;
* `Arms.exists_cycleBegun`, `CycleBegun.exists_landing` — those that come with the beginning of a
  cycle leave it as it would be without them;
* `interrupts_heard` — which interrupts are heard, and what comes of them.
-/
import TraceDebugger.Proofs.Session.Breakpoints
import TraceDebugger.Proofs.Session.Trail

namespace TraceDebugger

/-! ### Who still waits -/

namespace Store

variable {store middle last : Store}

/-- Whoever waits in a store has waited in an earlier one, and for nothing that was published in
between. -/
def LeavesWaiting (store last : Store) : Prop :=
  ∃ events, last.published = events ++ store.published ∧
    ∀ taker ∈ last.takers, taker ∈ store.takers ∧ ∀ event ∈ events, event.kind ∉ taker.kinds

theorem LeavesWaiting.of_same (hp : last.published = store.published)
    (ht : last.takers = store.takers) :
    store.LeavesWaiting last :=
  ⟨[], hp, fun _ hm => ⟨ht ▸ hm, fun _ he => absurd he List.not_mem_nil⟩⟩

theorem LeavesWaiting.trans (h : store.LeavesWaiting middle) (h' : middle.LeavesWaiting last) :
    store.LeavesWaiting last := by
  obtain ⟨first, hfirst, hmiddle⟩ := h
  obtain ⟨second, hsecond, hlast⟩ := h'
  refine ⟨second ++ first, by rw [hsecond, hfirst, List.append_assoc], fun taker ht => ?_⟩
  obtain ⟨ht', hnone⟩ := hlast taker ht
  obtain ⟨ht'', hnone'⟩ := hmiddle taker ht'
  refine ⟨ht'', fun event he => ?_⟩
  rcases List.mem_append.mp he with he | he
  · exact hnone event he
  · exact hnone' event he

theorem leavesWaiting_takeIn {event : Event} (h : takeIn event store = .ok () last) :
    store.LeavesWaiting last := by
  rw [takeIn] at h
  split at h <;> cases h
  exact .of_same rfl rfl

theorem leavesWaiting_hear {event : Event} {listener : Listener} {events : List Event}
    (h : hear event listener store = .ok events last) : store.LeavesWaiting last := by
  rw [hear] at h
  split at h <;> cases h
  exact .of_same rfl rfl

theorem leavesWaiting_trip {event : Event} {wire : Tripwire} {events : List Event}
    (h : trip event wire store = .ok events last) : store.LeavesWaiting last := by
  rw [trip] at h
  split at h <;> cases h
  · exact .of_same rfl rfl
  · exact .of_same rfl rfl

theorem leavesWaiting_deliver {event : Event} {after : Store}
    (h : (store.note event).LeavesWaiting after) :
    store.LeavesWaiting (after.deliver event) := by
  obtain ⟨events, hevents, hafter⟩ := h
  refine ⟨events ++ [event], by rw [List.append_assoc]; exact hevents, fun taker ht => ?_⟩
  -- who is still there did not wait for the event itself
  obtain ⟨hmem, hleft⟩ := List.mem_filter.mp ht
  obtain ⟨hbefore, hnone⟩ := hafter taker hmem
  refine ⟨hbefore, fun other ho => ?_⟩
  rcases List.mem_append.mp ho with ho | ho
  · exact hnone other ho
  · obtain rfl := List.mem_singleton.mp ho
    simpa using hleft

/-- Everybody who hears an event has answered before it is delivered. -/
theorem exists_leavesWaiting_putWithin {depth : Nat} : ∀ {event : Event} {store last : Store},
    putWithin depth event store = .ok () last →
      ∃ after, (store.note event).LeavesWaiting after ∧ last = after.deliver event := by
  -- on the depth, since listeners and tripwires publish their answers one level below
  induction depth with
  | zero =>
    intro event store last h
    cases h
  | succ depth ih =>
    intro event store last h
    obtain ⟨reduced, middle, after, htake, hheard, htripped, rfl⟩ := putWithin_eq_ok_iff.mp h
    have hone {α : Type} {answer : α → StoreM (List Event)}
        (hanswer : ∀ {a store last events}, answer a store = .ok events last →
          store.LeavesWaiting last)
        (a : α) {before after : Store} (hbefore : (store.note event).LeavesWaiting before)
        (h : putHearing depth answer a before = .ok () after) :
        (store.note event).LeavesWaiting after := by
      obtain ⟨events, heard, hevents, hrow⟩ := bind_eq_ok h
      refine (forM_keeps _ (fun _ _ _ _ hi hp => ?_) (hbefore.trans (hanswer hevents)) hrow).1
      obtain ⟨within, hwithin, rfl⟩ := ih hp
      exact hi.trans (leavesWaiting_deliver hwithin)
    have hmiddle := (forM_keeps _ (fun listener _ _ _ => hone leavesWaiting_hear listener)
      (leavesWaiting_takeIn htake) hheard).1
    have hkept := forM_keeps _ (fun wire _ _ _ => hone leavesWaiting_trip wire) hmiddle htripped
    exact ⟨after, hkept.1, rfl⟩

theorem leavesWaiting_put {event : Event} (h : put event store = .ok () last) :
    store.LeavesWaiting last := by
  obtain ⟨after, hafter, rfl⟩ := exists_leavesWaiting_putWithin h
  exact leavesWaiting_deliver hafter

theorem leavesWaiting_advanceTrace (h : advanceTrace store = .ok () last) :
    store.LeavesWaiting last := by
  -- without a trace an advance fails
  have hl : store.bench.recording.loaded = true := by
    by_contra hl
    have hthrown : advanceTrace.run store = .error .traceNotLoaded store := by
      rw [advanceTrace, run_get_bind]
      dsimp only
      rw [if_neg hl]
      rfl
    cases hthrown.symm.trans h
  rw [advanceTrace_eq hl] at h
  obtain ⟨_, announced, hannounced, h⟩ := bind_eq_ok h
  cases hannounced
  have hsame : store.LeavesWaiting (store.record store.bench.announced []) := .of_same rfl rfl
  split at h
  · obtain ⟨_, ticked, htick, h⟩ := bind_eq_ok h
    exact hsame.trans ((leavesWaiting_put htick).trans (leavesWaiting_put h))
  · exact hsame.trans (leavesWaiting_put h)

end Store

/-! ### Turns that publish -/

namespace Session

variable {start : Workbench} {base : Base} {job : Job} {turns : List Turn} {turn : Turn}
  {session armed next reached : Session}

/-- Whoever waits before and after waits for nothing that a session has published in between. -/
def LeavesWaiting (session next : Session) : Prop :=
  ∃ events, next.store.published = events ++ session.store.published ∧
    ∀ taker ∈ session.store.takers, taker ∈ next.store.takers →
      ∀ event ∈ events, event.kind ∉ taker.kinds

theorem leavesWaiting_of_store {store : Store} (h : store.LeavesWaiting next.store)
    (hp : store.published = session.store.published) : session.LeavesWaiting next := by
  obtain ⟨events, hevents, hall⟩ := h
  exact ⟨events, by rw [hevents, hp], fun taker _ ht => (hall taker ht).2⟩

theorem leavesWaiting_of_same (hp : next.store.published = session.store.published) :
    session.LeavesWaiting next :=
  ⟨[], hp, fun _ _ _ _ he => absurd he List.not_mem_nil⟩

theorem leavesWaiting_of_attempt {change : StoreM Unit}
    (hc : ∀ {store last}, change store = .ok () last → store.LeavesWaiting last)
    (h : session.attempt change = (reached, none)) : session.store.LeavesWaiting reached.store := by
  rw [attempt] at h
  cases hrun : change session.store with
  | error fault last =>
    rw [hrun] at h
    cases h
  | ok _ last =>
    rw [hrun] at h
    obtain rfl := (Prod.mk.inj h).1
    have hstore : (session.withStore last).tellAll.store = { last with notices := [] } :=
      store_foldl_tell _ _
    have hpublished : (session.withStore last).tellAll.store.published = last.published := by
      rw [hstore]
    have htakers : (session.withStore last).tellAll.store.takers = last.takers := by rw [hstore]
    exact (hc hrun).trans (.of_same hpublished htakers)

/-- Nothing has failed in the cycle of the dispatcher. -/
def Unfailed (session : Session) : Prop :=
  ∃ cycle, session.ownCycle = some cycle ∧ ∀ fault, cycle.run ≠ .finished (some fault)

theorem not_unfailed_finishRun (fault : Fault) :
    ¬ (session.finishRun .own (some fault)).Unfailed := by
  rintro ⟨cycle, hcycle, hrun⟩
  have hmap : (session.ownCycle.map fun cycle => { cycle with run := .finished (some fault) })
      = some cycle := hcycle
  obtain ⟨before, -, rfl⟩ := Option.map_eq_some_iff.mp hmap
  exact hrun fault rfl

theorem leavesWaiting_requestStep {pursuit : Pursuit}
    (h : (session.requestStep .own pursuit).Unfailed) :
    session.LeavesWaiting (session.requestStep .own pursuit) := by
  rw [requestStep, take_eq] at h ⊢
  split at h
  case isFalse => exact absurd h (not_unfailed_finishRun _)
  case isTrue hl =>
    rw [if_pos hl]
    dsimp only at h ⊢
    cases hput : (session.take [.tock, .endOfTrace]).2.put .next with
    | mk reached fault =>
      rw [hput] at h
      cases fault with
      | some fault => exact absurd h (not_unfailed_finishRun _)
      | none =>
        have hwaiting := leavesWaiting_of_attempt Store.leavesWaiting_put hput
        have hleaves : session.LeavesWaiting reached := leavesWaiting_of_store hwaiting rfl
        dsimp only
        split
        · exact hleaves
        · exact hleaves

theorem leavesWaiting_resumeRun (h : (session.resumeRun .own).Unfailed) :
    session.LeavesWaiting (session.resumeRun .own) := by
  rw [resumeRun] at h ⊢
  cases hc : session.cycle? .own with
  | none => exact leavesWaiting_of_same rfl
  | some cycle =>
    rw [hc] at h
    dsimp only at h ⊢
    split
    · exact leavesWaiting_of_same rfl
    case isFalse hs =>
      rw [if_neg hs] at h
      -- a pursuit publishes its request, and only after it has begun to wait for the reply
      cases hrun : cycle.run with
      | queued queued =>
        rw [hrun] at h
        cases queued with
        | none =>
          dsimp only at h ⊢
          cases hb : session.bench.begin cycle.event cycle.command with
          | error fault => exact leavesWaiting_of_same rfl
          | ok pursuit =>
            rw [hb] at h
            exact leavesWaiting_requestStep h
        | some pursuit =>
          dsimp only at h ⊢
          cases hp : session.bench.proceed pursuit with
          | error fault => exact leavesWaiting_of_same rfl
          | ok more =>
            rw [hp] at h
            cases more with
            | none => exact leavesWaiting_of_same rfl
            | some more => exact leavesWaiting_requestStep h
      | _ => exact leavesWaiting_of_same rfl

theorem leavesWaiting_serve (h : ∀ fault, session.serve.engine ≠ .halted fault) :
    session.LeavesWaiting session.serve := by
  rw [serve] at h ⊢
  cases hengine : session.engine with
  | serving channel =>
    rw [hengine] at h
    dsimp only at h ⊢
    cases hf : session.store.fetch channel with
    | error fault =>
      rw [hf] at h
      exact absurd rfl (h fault)
    | ok fetched =>
      obtain ⟨event, store⟩ := fetched
      rw [hf] at h
      dsimp only at h ⊢
      have hpublished : store.published = session.store.published := by
        rw [Store.fetch] at hf
        split at hf <;> cases hf
        rfl
      -- it is within a step of the trace that events are published
      cases ha : ({ session with store } : Session).attempt Store.advanceTrace with
      | mk reached fault =>
        rw [hengine] at ha
        rw [ha] at h ⊢
        cases fault with
        | some fault => exact absurd rfl (h fault)
        | none =>
          have hwaiting := leavesWaiting_of_attempt Store.leavesWaiting_advanceTrace ha
          have hleaves : session.LeavesWaiting reached := leavesWaiting_of_store hwaiting hpublished
          show session.LeavesWaiting (reached.awaitRequest channel)
          rw [awaitRequest]
          split
          · exact hleaves
          · exact hleaves
  | _ => exact leavesWaiting_of_same rfl

/-- A turn that leaves the dispatcher at work leaves the interrupt of its cycle as it is, heard or
not. -/
theorem Turned.heard_cases (h : Turned base job turns turn next) :
    (next.dispatcher ≠ .working ∧ next.cursor = base.bench.recording.cursor) ∨
      ∃ (base' : Base) (job' : Job) (turns' : List Turn), next = base'.work job' turns' ∧
        job'.heard = job.heard ∧ job'.cycle.interrupt = job.cycle.interrupt := by
  cases h with
  | ends => exact .inl ⟨fun hd => (by cases hd), rfl⟩
  | crashes => exact .inl ⟨fun hd => (by cases hd), rfl⟩
  | _ => exact .inr ⟨_, _, _, rfl, rfl, rfl⟩

/-- And whoever goes on waiting then waits for nothing that was published in the turn. -/
theorem Turned.leavesWaiting (h : Turned base job turns turn next) (hn : next.dispatcher = .working)
    (hc : armed.cycle? .own = some job.cycle) {reached : Session}
    (hreached : armed.takeTurn turn = reached) (hu : reached.Unfailed)
    (he : ∀ fault, reached.engine ≠ .halted fault) : armed.LeavesWaiting reached := by
  subst hreached
  have hcycle (hrun : job.cycle.run.ended = none) :
      armed.LeavesWaiting (armed.resumeCycle .own) := by
    rw [resumeCycle, hc]
    dsimp only
    cases hr : job.cycle.run with
    | finished => rw [hr] at hrun; cases hrun
    | cancelled => rw [hr] at hrun; cases hrun
    | _ => exact leavesWaiting_of_same rfl
  -- by what the turn did: only the pursuit and the engine publish anything
  cases h with
  | asks | loses | arrives | fails | drops => exact leavesWaiting_resumeRun hu
  | serves | servesLast | halts => exact leavesWaiting_serve he
  | decides | decided =>
    show armed.LeavesWaiting (armed.settleRace .own)
    rw [settleRace, hc]
    dsimp only
    split
    · exact leavesWaiting_of_same rfl
    · exact leavesWaiting_of_same rfl
  | dooms hq => exact hcycle (by rw [hq]; rfl)
  | recalls hw => exact hcycle (by rw [hw]; rfl)
  | ends => cases hn
  | crashes => cases hn

end Session

/-! ### The steps that are left -/

/-- The steps that may yet be processed for a command that has heard an interrupt, by the turns to
come: the one that has been asked for, and the one that the pursuit asks for before the cycle has
its turn. -/
def Job.stepsLeft (job : Job) (turns : List Turn) : Nat :=
  match job.cycle.stopping, job.cycle.run, turns with
  -- a pursuit that is stopped asks for nothing, but what it has asked for may be served yet
  | true, _, .engine :: _ => 1
  | true, _, _ => 0
  -- the cycle stops the pursuit when it has its turn, which may be the next one
  | false, .queued _, .cycle _ :: _ => 0
  | false, .queued _, _ => 1
  -- served before the race is decided, the pursuit has time to ask once more
  | false, .waiting .., .engine :: .race _ :: _ => 2
  | false, .waiting .., _ => 1
  | false, _, _ => 0

namespace Session

variable {start : Workbench} {base : Base} {job : Job} {turns : List Turn} {turn : Turn}
  {session armed next reached : Session}

theorem stepsLeft_le (job : Job) (turns : List Turn) : job.stepsLeft turns ≤ 2 := by
  unfold Job.stepsLeft
  split <;> decide

theorem raceTurns_of_heard (hr : job.heard = true) :
    job.raceTurns = [.race .own] ∧ job.cycle.settled = false ∨
      job.raceTurns = [.cycle .own] ∧ job.cycle.settled = true := by
  cases hd : job.cycle.settled with
  | false => exact .inl ⟨raceTurns_heard hd hr, rfl⟩
  | true => exact .inr ⟨raceTurns_settled hd, rfl⟩

/-- A command under way has come to its end, or it has used up as many of the steps that were left
for it as it has moved by. -/
def MovesWithin (base : Base) (job : Job) (turns : List Turn) (next : Session) : Prop :=
  (next.dispatcher ≠ .working ∧ next.cursor = base.bench.recording.cursor) ∨
    ∃ (base' : Base) (job' : Job) (turns' : List Turn), next = base'.work job' turns' ∧
      job'.heard = true ∧ base'.bench.recording.cursor + job'.stepsLeft turns'
        ≤ base.bench.recording.cursor + job.stepsLeft turns

/-- It is so if the command stays where it is and no more steps are left for it. -/
theorem movesWithin_of_le {base' : Base} {job' : Job} {turns' : List Turn}
    (hc : base'.bench.recording = base.bench.recording) (hr : job'.heard = true)
    (hl : job'.stepsLeft turns' ≤ job.stepsLeft turns) :
    MovesWithin base job turns (base'.work job' turns') :=
  .inr ⟨_, _, _, rfl, hr, by rw [hc]; omega⟩

/-- It is so if the command moves by a step and one less is left for it. -/
theorem movesWithin_of_passage {events : List Event} (hp : base.bench.passage = .ok events)
    {base' : Base} {job' : Job} {turns' : List Turn}
    (hc : base'.bench.recording = (base.bench.past events).recording) (hr : job'.heard = true)
    (hl : job'.stepsLeft turns' < job.stepsLeft turns) :
    MovesWithin base job turns (base'.work job' turns') := by
  have hcursor := Workbench.cursor_past hp
  refine .inr ⟨_, _, _, rfl, hr, ?_⟩
  rw [hc, hcursor]
  omega

/-- The pursuit has its turn, and the cycle has one after it. -/
theorem movesWithin_run (hr : job.heard = true) {queued : Option Pursuit}
    (hq : job.cycle.run = .queued queued) (hs : job.cycle.stopping = false)
    (ht : turns = [.race .own] ∨ turns = [.cycle .own])
    (h : Turned base job turns (.run .own) next) :
    MovesWithin base job (.run .own :: turns) next := by
  have hone : job.stepsLeft (.run .own :: turns) = 1 := by simp [Job.stepsLeft, hq, hs]
  cases h with
  | drops _ hs' => cases hs.symm.trans hs'
  | asks | loses =>
    refine movesWithin_of_le rfl hr ?_
    rcases ht with rfl | rfl <;> simp [Job.stepsLeft, Job.withRun, hq, hs]
  | arrives | fails =>
    refine movesWithin_of_le rfl hr ?_
    rw [hone]
    simp [Job.stepsLeft, Job.withRun, hs]

/-- The engine has its turn, while the pursuit waits for it. -/
theorem movesWithin_engine (hr : job.heard = true)
    (hpassage : ∃ events, base.bench.passage = .ok events)
    {ticket : Ticket} {pursuit : Pursuit} (hw : job.cycle.run = .waiting ticket pursuit)
    (hs : job.cycle.stopping = false) (ht : turns = [.race .own] ∨ turns = [.cycle .own])
    (h : Turned base job turns .engine next) : MovesWithin base job (.engine :: turns) next := by
  cases h with
  | serves _ _ _ hp =>
    refine movesWithin_of_passage hp rfl hr ?_
    rcases ht with rfl | rfl <;> simp [Job.stepsLeft, Job.withRun, hw, hs]
  | servesLast hq => cases hw.symm.trans hq
  | halts _ hp =>
    obtain ⟨events, hok⟩ := hpassage
    cases hp.symm.trans hok

/-- The race is decided while the pursuit is on its way. -/
theorem movesWithin_race {service : Service} {mark : List Turn}
    (hm : Mark service job.cycle.run mark) (hs : job.cycle.stopping = false)
    (hd : job.cycle.settled = false) (hr : job.heard = true)
    (h : Turned base job mark (.race .own) next) :
    MovesWithin base job (.race .own :: mark) next := by
  cases h with
  | decided hd' => cases hd.symm.trans hd'
  | decides =>
    refine movesWithin_of_le rfl hr ?_
    generalize hrun : job.cycle.run = run at hm
    cases hm <;> simp [Job.stepsLeft, Job.settle, hrun, hs]

/-- The cycle dooms the pursuit on its way. -/
theorem movesWithin_cycle {service : Service} {mark : List Turn}
    (hm : Mark service job.cycle.run mark) (hs : job.cycle.stopping = false)
    (hr : job.heard = true) (h : Turned base job mark (.cycle .own) next) :
    MovesWithin base job (.cycle .own :: mark) next := by
  -- the place of the turns to come tells what the pursuit was about when it was interrupted
  generalize hrun : job.cycle.run = run at hm
  cases h with
  | dooms hq =>
    refine movesWithin_of_le rfl hr ?_
    cases hm with
    | queued => simp [Job.stepsLeft, Job.stop]
    | served => cases hrun.symm.trans hq
    | lost => cases hrun.symm.trans hq
  | recalls hw =>
    refine movesWithin_of_le rfl hr ?_
    cases hm with
    | queued => cases hrun.symm.trans hw
    | _ => simp [Job.stepsLeft, Job.stop, Job.withRun, hrun, hs]
  | ends he =>
    rw [hrun] at he
    cases hm <;> cases he
  | crashes hf =>
    rw [hrun] at hf
    cases hm <;> cases hf

/-- The cycle of a pursuit that is over ends. -/
theorem movesWithin_end (hq : ∀ queued, job.cycle.run ≠ .queued queued)
    (hw : ∀ ticket pursuit, job.cycle.run ≠ .waiting ticket pursuit)
    (h : Turned base job turns (.cycle .own) next) :
    MovesWithin base job (.cycle .own :: turns) next := by
  cases h with
  | dooms hq' => exact absurd hq' (hq _)
  | recalls hw' => exact absurd hw' (hw _ _)
  | ends => exact .inl ⟨fun hd => (by cases hd), rfl⟩
  | crashes => exact .inl ⟨fun hd => (by cases hd), rfl⟩

/-- **A command that has heard an interrupt moves within the steps that are left for it, turn by
turn.** -/
theorem Turned.movesWithin (hp : Paced base.service job (turn :: turns)) (hr : job.heard = true)
    (hpassage : ∃ events, base.bench.passage = .ok events) (h : Turned base job turns turn next) :
    MovesWithin base job (turn :: turns) next := by
  have hraceTurns := raceTurns_of_heard hr
  have hturns : job.raceTurns = [.race .own] ∨ job.raceTurns = [.cycle .own] :=
    hraceTurns.imp And.left And.left
  -- the turn that the interrupt gives to the race or to the cycle comes before that of the pursuit
  have hbehind {mark : List Turn} (hm : Mark base.service job.cycle.run mark)
      (hs : job.cycle.stopping = false) (hall : turn :: turns = job.raceTurns ++ mark) :
      MovesWithin base job (turn :: turns) next := by
    rcases hraceTurns with ⟨hraceTurns, hd⟩ | ⟨hraceTurns, -⟩ <;> rw [hraceTurns] at hall <;>
      obtain ⟨rfl, rfl⟩ := List.cons.inj hall
    · exact movesWithin_race hm hs hd hr h
    · exact movesWithin_cycle hm hs hr h
  -- by the order in which the turns to come may stand
  generalize hall : turn :: turns = all at hp ⊢
  cases hp with
  | ahead hm hs =>
    have hm' := hm
    generalize hrun : job.cycle.run = run at hm'
    generalize base.service = service at hm'
    cases hm' with
    | queued =>
      obtain ⟨rfl, rfl⟩ := List.cons.inj hall
      exact movesWithin_run hr hrun hs hturns h
    | served =>
      obtain ⟨rfl, rfl⟩ := List.cons.inj hall
      exact movesWithin_engine hr hpassage hrun hs hturns h
    | lost => exact hall ▸ hbehind hm hs (hall.trans (List.append_nil _).symm)
  | behind hm hs => exact hall ▸ hbehind hm hs hall
  | finished hf hb hs hd =>
    obtain ⟨rfl, rfl⟩ := List.cons.inj hall
    cases h with
    | decided hd' => cases hd.symm.trans hd'
    | decides =>
      refine movesWithin_of_le rfl hr ?_
      simp [Job.stepsLeft, Job.settle, hf, hs]
  | decided hf hb hs hd ht =>
    have hend : turn = .cycle .own → MovesWithin base job (turn :: turns) next := by
      rintro rfl
      exact movesWithin_end (fun _ hq => by cases hf.symm.trans hq)
        (fun _ _ hw => by cases hf.symm.trans hw) h
    rcases ht with rfl | ⟨-, rfl | rfl⟩ <;> obtain ⟨rfl, rfl⟩ := List.cons.inj hall
    · exact hend rfl
    · exact hend rfl
    · cases h with
      | decides hd' => cases hd.symm.trans hd'
      | decided => exact movesWithin_of_le rfl hr (by simp [Job.stepsLeft, hf, hs])
  -- the pursuit has been stopped: only what it has asked for before is served
  | doomed hq hb hs =>
    obtain ⟨rfl, rfl⟩ := List.cons.inj hall
    cases h with
    | drops => exact movesWithin_of_le rfl hr (by simp [Job.stepsLeft, Job.withRun, hs])
    | _ _ hs' => cases hs.symm.trans hs'
  | doomedServed hq hb hs =>
    obtain ⟨rfl, rfl⟩ := List.cons.inj hall
    cases h with
    | servesLast _ _ _ _ hp =>
      exact movesWithin_of_passage hp rfl hr (by simp [Job.stepsLeft, hs])
    | serves _ hs' => cases hs.symm.trans hs'
    | halts _ hp =>
      obtain ⟨events, hok⟩ := hpassage
      cases hp.symm.trans hok
  | dropped hc hb hs =>
    obtain ⟨rfl, rfl⟩ := List.cons.inj hall
    exact movesWithin_end (fun _ hq => by cases hc.symm.trans hq)
      (fun _ _ hw => by cases hc.symm.trans hw) h

/-! ### Commands that have heard an interrupt -/

variable {order : Order} {ended since : List Event} {found : Option Bool} {low limit : Nat}
  {origin here later : Session}

/-- An order has heard an interrupt, or its command is over, and the cursor will not come beyond the
limit. -/
inductive BoundedBy (order : Order) (limit : Nat) : Session → Prop
  | work {base : Base} {job : Job} {turns : List Turn} (hr : job.heard = true)
      (hl : base.bench.recording.cursor + job.stepsLeft turns ≤ limit) :
      BoundedBy order limit (base.work job turns)
  | done {session : Session} {interrupted : Bool}
      (h : CommandOver order.command interrupted session) (hl : session.cursor ≤ limit) :
      BoundedBy order limit session

theorem OrderPhase.exists_commandOver (h : OrderPhase order ended found session)
    (hd : session.dispatcher ≠ .working) :
    ∃ interrupted, CommandOver order.command interrupted session := by
  cases h with
  | given => exact absurd rfl hd
  | underway => exact absurd rfl hd
  | finished h => exact ⟨_, h⟩

theorem OrderPhase.exists_work (h : OrderPhase order ended found session) {cycle : Cycle}
    (hc : session.ownCycle = some cycle) :
    ∃ base job turns, session = Base.work base job turns ∧ job.Follows order base ∧
      Paced base.service job turns := by
  cases h with
  | given => cases hc
  | underway h hp => exact ⟨_, _, _, rfl, h, hp⟩
  | finished h => cases h.ownCycle.symm.trans hc

theorem BoundedBy.step (h : BoundedBy order limit session) (hs : Outset start)
    (he : OrderOnCourse start low order ended found session) (hn : session.step? = some next) :
    BoundedBy order limit next := by
  have hnext := he.step hs hn
  cases h with
  | done hover hl =>
    obtain ⟨hover', hstore⟩ := hover.step hn
    refine .done hover' ?_
    rw [cursor, bench, hstore]
    exact hl
  | @work base job turns hr hl =>
    obtain ⟨hsound, hpaced⟩ := sound_paced_of_stage he.orderPhase.stage
    cases turns with
    | nil => cases hn
    | cons turn turns =>
      obtain rfl := Option.some.inj ((step_work turn).symm.trans hn)
      have hpassage := (he.course.processable hs.processable).exists_passage
      -- the command ends at this cursor, or uses up a step that it had left
      obtain ⟨hd, hcursor⟩ | ⟨base', job', turns', hwork, hr', hspent⟩ :=
        (turned_takeTurn hsound hpaced).movesWithin hpaced hr hpassage
      · obtain ⟨interrupted, hover⟩ := hnext.orderPhase.exists_commandOver hd
        exact .done hover (by rw [hcursor]; omega)
      · rw [hwork]
        exact .work hr' (Nat.le_trans hspent hl)

theorem BoundedBy.interrupt (h : BoundedBy order limit session)
    (he : OrderOnCourse start low order ended found session) :
    BoundedBy order limit (session.put .interrupt).1 := by
  cases h with
  | done hover hl =>
    obtain ⟨hover', -⟩ := hover.interrupt
    obtain ⟨hbench, -, -⟩ := interrupt_cases hover.stage
    exact .done hover' (by rw [cursor, hbench]; exact hl)
  | work hr hl =>
    obtain ⟨hsound, -⟩ := sound_paced_of_stage he.orderPhase.stage
    rw [put_interrupt_again hsound.sound.order hr]
    exact .work hr hl

theorem BoundedBy.interruptIf (h : BoundedBy order limit session)
    (he : OrderOnCourse start low order ended found session) (delivered : Bool) :
    BoundedBy order limit (session.interruptIf delivered) := by
  cases delivered with
  | false => exact h
  | true => exact h.interrupt he

theorem BoundedBy.ticketed (h : BoundedBy order limit session) :
    BoundedBy order limit session.ticketed := by
  cases h with
  | done hover hl => exact .done hover.ticketed hl
  | @work base job turns hr hl =>
    have hticketed : BoundedBy order limit (base.ticketed.work job turns) := .work hr hl
    exact hticketed

/-- A command under way hears an interrupt, if it has not heard one before. -/
theorem boundedBy_interrupt (he : OrderOnCourse start low order ended found session) {cycle : Cycle}
    (hc : session.ownCycle = some cycle) :
    BoundedBy order (session.cursor + 2) (session.put .interrupt).1 := by
  obtain ⟨base, job, turns, rfl, hfollows, hpaced⟩ := he.orderPhase.exists_work hc
  cases hheard : job.heard with
  | true =>
    have hbound := stepsLeft_le job turns
    rw [put_interrupt_again hfollows.sound.sound.order hheard]
    exact .work hheard (Nat.add_le_add_left hbound _)
  | false =>
    have hbound := stepsLeft_le job.hear (turns ++ [.race .own])
    rw [put_interrupt_first hfollows.sound hheard (paced_hear hpaced hheard).1]
    exact .work rfl (Nat.add_le_add_left hbound _)

/-- A session publishes an interrupt, in a turn or from outside. -/
def Interrupts (session next : Session) : Prop :=
  (session.step? = some next ∨ next = (session.put .interrupt).1) ∧
    ∃ events, next.store.published = events ++ session.store.published ∧ .interrupt ∈ events

/-- An interrupt from outside is published, unless the publication fails. -/
theorem interrupts_put (h : (session.put .interrupt).2 = none) :
    session.Interrupts (session.put .interrupt).1 := by
  refine ⟨.inr rfl, ?_⟩
  rw [put, attempt] at h ⊢
  cases hrun : Store.put .interrupt session.store with
  | error fault last =>
    rw [hrun] at h
    cases h
  | ok _ last =>
    obtain ⟨after, ⟨events, hevents, -⟩, rfl⟩ := Store.exists_leavesWaiting_putWithin hrun
    refine ⟨events ++ [.interrupt], ?_, List.mem_append_right _ (List.mem_singleton.mpr rfl)⟩
    have hstore : (session.withStore (after.deliver .interrupt)).tellAll.store
        = { after.deliver .interrupt with notices := [] } := store_foldl_tell _ _
    show (session.withStore (after.deliver .interrupt)).tellAll.store.published = _
    rw [hstore, List.append_assoc]
    exact hevents

theorem Arms.takers (h : Arms since session armed) :
    armed.store.takers = session.store.takers := by
  obtain ⟨arming, -, -, -, rfl⟩ := h
  rfl

theorem Arms.ownCycle (h : Arms since session armed) : armed.ownCycle = session.ownCycle := by
  obtain ⟨arming, -, -, -, rfl⟩ := h
  rfl

theorem Arms.engine (h : Arms since session armed) : armed.engine = session.engine := by
  obtain ⟨arming, -, -, -, rfl⟩ := h
  rfl

theorem mem_interruptTakers (hr : job.heard = false) :
    (Taker.mk job.cycle.interrupt [.interrupt]) ∈ job.takers := by
  rw [takers_of_unheard hr]
  exact List.mem_append_right _ List.mem_cons_self

/-- An interrupt that is published in a turn of a command under way is heard, unless the command is
over with that turn. -/
theorem boundedBy_of_unheard {reached : Session} (hs : Outset start)
    (he : OrderOnCourse start low order ended found (base.work job (turn :: turns)))
    (hr : Arms since (base.work job (turn :: turns)) armed) (hheard : job.heard = false)
    (hn : armed.step? = some next) (hreached : (base.work job turns).takeTurn turn = reached)
    (hr' : Arms since reached next) {events : List Event}
    (hp : next.store.published = events ++ armed.store.published) (hi : .interrupt ∈ events) :
    BoundedBy order (base.bench.recording.cursor + 2) reached := by
  obtain ⟨hsound, hpaced⟩ := sound_paced_of_stage he.orderPhase.stage
  have hroute := he.step hs ((step_work turn).trans (congrArg some hreached))
  have hturned := turned_takeTurn hsound hpaced
  rw [hreached] at hturned
  obtain ⟨hd, hcursor⟩ | ⟨base', job', turns', hwork, hsame, hticket⟩ := hturned.heard_cases
  · obtain ⟨interrupted, hover⟩ := hroute.orderPhase.exists_commandOver hd
    exact .done hover (by rw [hcursor]; exact Nat.le_add_right _ 2)
  · -- the dispatcher would still wait for an interrupt that has been published
    exfalso
    have hworking : reached.dispatcher = .working := by rw [hwork]; rfl
    have hcycle : reached.ownCycle = some job'.cycle := by rw [hwork]; rfl
    have hunfailed : next.Unfailed :=
      ⟨job'.cycle, hr'.ownCycle.trans hcycle, fun fault =>
        hroute.orderPhase.unfailed _ fault hcycle⟩
    have hengine (fault : Fault) : next.engine ≠ .halted fault := by
      rw [hr'.engine]
      exact hroute.orderPhase.engine_ne_halted fault
    have hturn : ({ armed with turns } : Session).takeTurn turn = next :=
      Option.some.inj ((step_turn hr.turns).symm.trans hn)
    have hlane : ({ armed with turns } : Session).cycle? .own = some job.cycle := hr.ownCycle
    obtain ⟨events', hp', hnone⟩ := hturned.leavesWaiting hworking hlane hturn hunfailed hengine
    obtain rfl : events' = events := List.append_cancel_right (hp'.symm.trans hp)
    have hbefore : ⟨job.cycle.interrupt, [.interrupt]⟩ ∈ armed.store.takers := by
      rw [hr.takers]
      exact mem_interruptTakers hheard
    have hafter : ⟨job.cycle.interrupt, [.interrupt]⟩ ∈ next.store.takers := by
      rw [hr'.takers, hwork, ← hticket]
      exact mem_interruptTakers (hsame.trans hheard)
    exact hnone _ hbefore hafter .interrupt hi List.mem_cons_self

/-- **An interrupt that is published while a command is under way is heard.** -/
theorem Interrupts.exists_boundedBy {armed next : Session} (h : armed.Interrupts next)
    (hs : Outset start) (he : OrderOnCourse start low order ended found session)
    (hr : Arms since session armed) {cycle : Cycle} (hc : armed.ownCycle = some cycle) :
    ∃ found' reached, OrderOnCourse start low order ended found' reached ∧ Arms since reached next ∧
      BoundedBy order (armed.cursor + 2) reached := by
  have hcursor : armed.cursor = session.cursor := by rw [cursor, hr.bench]; rfl
  have hcycle := hr.ownCycle.symm.trans hc
  rw [hcursor]
  obtain ⟨hstep | rfl, events, hp, hi⟩ := h
  · obtain ⟨delivered, reached, hstep', hr', -⟩ := hr.exists_step he.orderPhase.stage
      he.orderPhase.engine_ne_halted he.orderPhase.unfailed
      (he.course.processable hs.processable).exists_passage hstep
    have hroute := (he.interruptIf delivered).step hs hstep'
    refine ⟨_, reached, hroute, hr', ?_⟩
    cases delivered with
    | true => exact (boundedBy_interrupt he hcycle).step hs (he.interruptIf true) hstep'
    | false =>
      -- the interrupt has made no difference: it had been heard before, or the cycle has ended
      obtain ⟨base, job, turns, rfl, hfollows, hpaced⟩ := he.orderPhase.exists_work hcycle
      cases turns with
      | nil => cases hstep'
      | cons turn turns =>
        cases hheard : job.heard with
        | true =>
          have hbound := stepsLeft_le job (turn :: turns)
          have hboundedBy : BoundedBy order (base.bench.recording.cursor + 2)
              (base.work job (turn :: turns)) := .work hheard (Nat.add_le_add_left hbound _)
          exact hboundedBy.step hs he hstep'
        | false =>
          have hreached := Option.some.inj ((step_work turn).symm.trans hstep')
          exact boundedBy_of_unheard hs he hr hheard hstep hreached hr' hp hi
  · exact ⟨found, _, he.interrupt, hr.interrupt he.orderPhase.stage, boundedBy_interrupt he hcycle⟩

/-- A command that has heard an interrupt stays within its bound, whatever becomes of the
session. -/
theorem BoundedBy.withoutCommands (h : BoundedBy order limit session) (hs : Outset start)
    (he : OrderOnCourse start low order ended found session) (hr : Arms [] session armed)
    (hl : WithoutCommands armed later) : later.cursor ≤ limit := by
  -- until the command is over it keeps to its bound, and nothing moves afterwards
  have hall :
      (∃ found reached, OrderOnCourse start low order ended found reached ∧ Arms [] reached later ∧
        BoundedBy order limit reached) ∨
      ∃ middle reached interrupted, WithoutCommands middle later ∧ Arms [] reached middle ∧
        CommandOver order.command interrupted reached ∧ start.OnCourse reached.bench ∧
        reached.cursor ≤ limit := by
    induction hl with
    | refl => exact .inl ⟨found, session, he, hr, h⟩
    | turn _ hn ih =>
      obtain ⟨found, reached, he, hr, h⟩ | ⟨middle, reached, interrupted, hl, hrest⟩ := ih
      · obtain ⟨delivered, reached', hstep, hr', -⟩ := hr.exists_step he.orderPhase.stage
          he.orderPhase.engine_ne_halted he.orderPhase.unfailed
          (he.course.processable hs.processable).exists_passage hn
        exact .inl ⟨_, reached', (he.interruptIf delivered).step hs hstep, hr',
          (h.interruptIf he delivered).step hs (he.interruptIf delivered) hstep⟩
      · exact .inr ⟨middle, reached, interrupted, hl.turn hn, hrest⟩
    | interrupt _ ih =>
      obtain ⟨found, reached, he, hr, h⟩ | ⟨middle, reached, interrupted, hl, hrest⟩ := ih
      · exact .inl ⟨found, _, he.interrupt, hr.interrupt he.orderPhase.stage, h.interrupt he⟩
      · exact .inr ⟨middle, reached, interrupted, hl.interrupt, hrest⟩
    | arm _ kind cursor ih =>
      obtain ⟨found, reached, he, hr, h⟩ | ⟨middle, reached, interrupted, hl, hrest⟩ := ih
      · exact .inl ⟨found, _, he.ticketed, hr.arm kind cursor, h.ticketed⟩
      · exact .inr ⟨middle, reached, interrupted, hl.arm kind cursor, hrest⟩
    | disarm _ ih =>
      obtain ⟨found, reached, he, hr, h⟩ | ⟨middle, reached, interrupted, hl, hrest⟩ := ih
      · exact .inl ⟨found, reached, he, hr.disarm, h⟩
      · exact .inr ⟨middle, reached, interrupted, hl.disarm, hrest⟩
    | release _ ha ih =>
      obtain ⟨found, reached, he, hr, h⟩ | ⟨middle, reached, interrupted, hl, hrest⟩ := ih
      · cases h with
        | work => cases hr.caller.symm.trans ha
        | done hover hle => exact .inr ⟨_, _, _, .release .refl ha, hr, hover, he.course, hle⟩
      · exact .inr ⟨middle, reached, interrupted, hl.release ha, hrest⟩
  obtain ⟨found, reached, he, hr, h⟩ | ⟨middle, reached, interrupted, hl, hr, hover, hc, hle⟩ :=
    hall
  · rw [cursor, hr.bench]
    cases h with
    | work _ hle => exact Nat.le_trans (Nat.le_add_right _ _) hle
    | done _ hle => exact hle
  · obtain ⟨reached', hr', -, hbench, -⟩ := hl.calm hs hc hr (.inl hover)
    rw [cursor, hr'.bench, hbench]
    exact hle

/-! ### Interrupts with the beginning of a cycle -/

theorem interruptIf_same (h : Stage session) (delivered : Bool) :
    (session.interruptIf delivered).bench = session.bench ∧
      (session.interruptIf delivered).ownCycle = session.ownCycle := by
  cases delivered with
  | false => exact ⟨rfl, rfl⟩
  | true =>
    obtain ⟨hbench, hcycle, -⟩ := interrupt_cases h
    exact ⟨hbench, hcycle⟩

/-- The cycle of an order has just begun, and it has not heard an interrupt. -/
structure CycleBegun (order : Order) (base : Base) (job : Job) : Prop where
  sound : job.Sound base
  service : base.service = .idle
  cycle : job.cycle =
    { command := order.command, event := order.event, interrupt := job.cycle.interrupt }

theorem OrderPhase.exists_cycleBegun (h : OrderPhase order ended found session)
    (hc : session.ownCycle = none)
    (hn : session.step? = some next) {cycle : Cycle} (hnext : next.ownCycle = some cycle) :
    ∃ base job, next = Base.work base job [.run .own] ∧ CycleBegun order base job ∧
      base.bench.core = session.bench.core := by
  cases h with
  | underway => cases hc
  | finished hover =>
    obtain ⟨hover', -⟩ := hover.step hn
    cases hover'.ownCycle.symm.trans hnext
  | @given base reply h hr hi he =>
    obtain ⟨lines, hbegin⟩ := takeTurn_command h reply order.event_kind []
    obtain rfl : _ = next := Option.some.inj hn
    let begun := (base.publish (base.bench.during (some order.command) lines)
      [.beginStep order.command]).ticketed
    have hbegun : begun.Sound :=
      ((h.during (some order.command) lines).note [.beginStep order.command]).ticketed
    exact ⟨begun, _, hbegin, ⟨⟨hbegun, hr, Nat.lt_succ_self _, fun _ _ hw => by cases hw⟩, hi, rfl⟩,
      rfl⟩

/-- Interrupts that come with the beginning of a cycle leave it as it would be without them. -/
theorem Arms.exists_cycleBegun {begun : Session} (hr : Arms since session armed) (hs : Outset start)
    (he : OrderOnCourse start low order ended found session) (hc : armed.ownCycle = none)
    (hn : armed.step? = some begun) {cycle : Cycle} (hbegun : begun.ownCycle = some cycle)
    (hw : begun.store.tripwires = []) :
    ∃ base job, begun = Base.work base job [.run .own] ∧ CycleBegun order base job ∧
      base.bench.core = session.bench.core := by
  obtain ⟨delivered, reached, hstep, hr', -⟩ := hr.exists_step he.orderPhase.stage
    he.orderPhase.engine_ne_halted he.orderPhase.unfailed
    (he.course.processable hs.processable).exists_passage hn
  obtain ⟨hbench, hsame⟩ := interruptIf_same he.orderPhase.stage delivered
  have hnone : (session.interruptIf delivered).ownCycle = none :=
    hsame.trans (hr.ownCycle.symm.trans hc)
  obtain ⟨base, job, rfl, ⟨hsound, hidle, hcycle⟩, hcore⟩ :=
    (he.interruptIf delivered).orderPhase.exists_cycleBegun hnone hstep
      (hr'.ownCycle.symm.trans hbegun)
  rw [hbench] at hcore
  -- without tripwires, the session differs in what it has published alone
  obtain ⟨arming, -, -, -, rfl⟩ := hr'
  have hwires : arming.wires = [] := hw
  let published : Base := { base with published := arming.published }
  have hpublished : published.Sound :=
    ⟨hsound.sound.loaded, hsound.sound.order, hsound.sound.held, hsound.sound.fresh⟩
  refine ⟨published, job, ?_, ⟨hsound.move hpublished (Nat.le_refl _), hidle, hcycle⟩, hcore⟩
  rw [armedBy, onStore, Store.withTripwires, hwires]
  rfl

/-- A cycle that has begun, and in which nothing interrupts it, comes to its end. -/
theorem CycleBegun.exists_steps (h : CycleBegun order base job) {pursuit : Pursuit}
    (hb : base.bench.begin order.event order.command = .ok pursuit) {blocks : List (List Event)}
    {reached : Workbench} (hr : base.bench.Runs pursuit blocks reached none) :
    ∃ count last, Steps count (base.work job [.run .own]) last ∧ last.turns = [] ∧
      last.caller = .answered (.ok (.flag true)) ∧ last.cursor = reached.recording.cursor := by
  obtain ⟨hsound, hidle, hcycle⟩ := h
  have hq : job.cycle.run = .queued none := by rw [hcycle]
  have hs : job.cycle.stopping = false := by rw [hcycle]
  have hd : job.cycle.settled = false := by rw [hcycle]
  have hm : resumption base.bench job.cycle none = .ok (some pursuit) := by
    rw [resumption, hcycle, hb]
    rfl
  -- the pursuit runs to its end, its race is decided, and the cycle ends
  obtain ⟨base', hrun, hpassed⟩ := steps_runs hr hsound hidle rfl hq hs hm
  have hbusy : base'.service ≠ .busy := by
    rw [hpassed.service]
    exact Service.idle_ne_busy
  obtain ⟨base'', hend, hleft⟩ := steps_end hpassed.sound.settle hbusy rfl
  refine ⟨_, _, (hrun.trans (steps_race hd)).trans hend, rfl, rfl, ?_⟩
  exact congrArg (·.cursor) (Workbench.recording_congr (hleft.core.trans hpassed.core))

/-- It ends where the order leads from there. -/
theorem CycleBegun.exists_landing (h : CycleBegun order base job) (hs : Outset start)
    (hc : start.OnCourse base.bench) {base' : Base} {ticket : Ticket} {there : Session}
    (hat : At start base' ticket there) (hcursor : there.cursor = base.bench.recording.cursor) :
    ∃ count last, Steps count (base.work job [.run .own]) last ∧ last.turns = [] ∧
      last.caller = .answered (.ok (.flag true)) ∧ last.cursor = there.landing order := by
  -- the order is compared with the same order to the session that rests there
  have hcore : base.bench.core = there.bench.core := hc.core_eq hat.onCourse hcursor.symm
  rw [hat.bench_eq] at hcore
  have hprocessable := hc.processable hs.processable
  obtain ⟨pursuit, blocks, reached, base'', ticket', hbegin, hruns, -, hnext, hleft⟩ :=
    hat.carryOut hs order
  rw [← Workbench.begin_congr hcore] at hbegin
  have hpoised := h.sound.sound.poised (Base.isOpen_of_idle h.service)
  obtain ⟨blocks', reached', hruns'⟩ := hprocessable.runs hpoised pursuit
  obtain ⟨-, hreached, -⟩ := hruns.eq_of_core hcore hruns'
  obtain ⟨count, last, hsteps, hnil, hanswered, hlast⟩ := h.exists_steps hbegin hruns'
  refine ⟨count, last, hsteps, hnil, hanswered, ?_⟩
  rw [hlast, landing, hnext.eq_rest, Workbench.recording_congr hreached]
  exact congrArg (·.cursor) (Workbench.recording_congr hleft.core).symm

/-- A command to continue without breakpoints leads to the end of the trace. -/
theorem At.landing_continueUntil_nil (hs : Outset start) (h : At start base ticket session)
    (hc : session.cursor = 0) {base' : Base} {ticket' : Ticket} {there : Session}
    (h' : At start base' ticket' there) :
    there.landing (.continueUntil []) = session.traceLength := by
  obtain ⟨-, count, -, hend | ⟨breakpoint, hmem, -⟩, -⟩ :=
    h.firstVisited_continueUntil hs hc h' []
  · exact hend
  · exact absurd hmem List.not_mem_nil

/-- **Which interrupts are heard.**  Whatever has been asked of a session since it loaded a trace
whose steps are processed, an order is given to it and on its way.

Once the cycle of the order has begun, an interrupt that is published in a turn or from outside is
heard: whatever becomes of the session, at most two more steps are processed for the order, the one
under way included.

Interrupts that are published with the beginning of the cycle, or before, are heard by nobody: if
none follows, the order is carried out to where it leads without them, and its caller is told so.  A
command to continue without breakpoints then processes all the steps that are left. -/
theorem interrupts_heard (hl : Loaded origin) (hp : origin.Processes) (ho : Onward origin here)
    (hi : here.caller = .idle) (order : Order) {before : Session}
    (h : Race here order found before) :
    (∀ cycle, before.ownCycle = some cycle → ∀ after, before.Interrupts after →
      ∀ last, WithoutCommands after last → last.cursor ≤ before.cursor + 2) ∧
    (before.ownCycle = none → ∀ begun cycle, before.step? = some begun →
      begun.ownCycle = some cycle → begun.store.tripwires = [] →
      ∃ count last, Steps count begun last ∧ last.turns = [] ∧
        last.caller = .answered (.ok (.flag true)) ∧
        last.cursor = (origin.obey (List.replicate before.cursor .advance)).landing order ∧
        (order = .continueUntil [] → last.cursor = origin.traceLength)) := by
  obtain ⟨start, base, ticket, hs, hat, hcursor, -⟩ := hl.outset hp
  -- the session with tripwires is compared with one without them, which has gone the same way
  obtain ⟨plain, harms, hplain⟩ := ho.exists_arms hs hat
  obtain ⟨base', ticket', hrest⟩ := hplain.exists_at (harms.caller ▸ hi)
  obtain ⟨session, hroute, hsession⟩ := h.orderOnCourse hs harms hrest
  refine ⟨fun cycle hc after hinterrupts last hlast => ?_, fun hnone begun cycle hn hbegun hw => ?_⟩
  · obtain ⟨found', reached, hreached, hafter, hboundedBy⟩ :=
      hinterrupts.exists_boundedBy hs hroute hsession hc
    exact hboundedBy.withoutCommands hs hreached (hafter.mono List.nil_suffix) hlast
  · obtain ⟨base₁, job, rfl, hcycleBegun, hcore⟩ :=
      hsession.exists_cycleBegun hs hroute hnone hn hbegun hw
    obtain ⟨base₂, ticket₂, hview, hviewed⟩ := hat.exists_view hs hcursor hroute.course
    have hbefore : before.cursor = session.bench.recording.cursor := by rw [cursor, hsession.bench]
    rw [hbefore]
    obtain ⟨count, last, hsteps, hnil, hanswered, hlast⟩ :=
      hcycleBegun.exists_landing hs (hroute.course.congr hcore) hview
        (by rw [hviewed, Workbench.recording_congr hcore])
    refine ⟨count, last, hsteps, hnil, hanswered, hlast, ?_⟩
    rintro rfl
    exact hlast.trans (hat.landing_continueUntil_nil hs hcursor hview)

/-- The brief session with a listener that interrupts every cycle when it begins. -/
def eager : Session := brief.onStore (Store.arm .beginStep none .interrupt)

/-- The brief session when a command to continue has begun. -/
def continued : Session := runFor 1 (brief.give .continueUntil (Order.continueUntil []).event)

/-- The same with that listener. -/
def continuedEagerly : Session :=
  runFor 1 (eager.give .continueUntil (Order.continueUntil []).event)

theorem brief_interrupts_heard :
    Loaded brief ∧ brief.Processes ∧ Onward brief eager ∧
      brief.caller = .idle ∧ eager.caller = .idle ∧
      (∃ found cycle, Race brief (.continueUntil []) found continued ∧
        continued.ownCycle = some cycle ∧ continued.Interrupts (continued.put .interrupt).1 ∧
        ∀ last, WithoutCommands (continued.put .interrupt).1 last →
          last.cursor ≤ continued.cursor + 2) ∧
      ∃ before cycle, Race eager (.continueUntil []) none before ∧ before.ownCycle = none ∧
        before.step? = some continuedEagerly ∧ continuedEagerly.ownCycle = some cycle ∧
        continuedEagerly.store.tripwires = [] ∧
        ∃ count last, Steps count continuedEagerly last ∧ last.turns = [] ∧
          last.caller = .answered (.ok (.flag true)) ∧ last.cursor = brief.traceLength := by
  have hidle : eager.caller = .idle := loaded_brief.idle
  have honward : Onward brief eager := .arm .origin .beginStep none
  let order : Order := .continueUntil []
  refine ⟨loaded_brief, processes_brief, honward, loaded_brief.idle, hidle, ?_, ?_⟩
  · -- one turn later the cycle is under way, and an interrupt from outside is heard
    obtain ⟨count, hsteps⟩ := exists_steps_runFor 1 (brief.give order.command order.event)
    have hgiven : Race brief order none (brief.give order.command order.event) := .given
    obtain ⟨found, hrace⟩ := hgiven.steps hsteps
    obtain ⟨cycle, hcycle⟩ := Option.isSome_iff_exists.mp
      (show continued.ownCycle.isSome = true by decide +kernel)
    have hinterrupts := interrupts_put (Option.isNone_iff_eq_none.mp
      (show (continued.put .interrupt).2.isNone = true by decide +kernel))
    obtain ⟨hheard, -⟩ :=
      interrupts_heard loaded_brief processes_brief .origin loaded_brief.idle order hrace
    exact ⟨found, cycle, hrace, hcycle, hinterrupts, hheard cycle hcycle _ hinterrupts⟩
  · -- the listener interrupts in the turn in which the cycle begins, and the tripwire is used up
    have hrace : Race eager order none (eager.give order.command order.event) := .given
    have hnone : (eager.give order.command order.event).ownCycle = none :=
      Option.isNone_iff_eq_none.mp (by decide +kernel)
    obtain ⟨next, hn⟩ := Option.isSome_iff_exists.mp
      (show (eager.give order.command order.event).step?.isSome = true by decide +kernel)
    obtain rfl : continuedEagerly = next := by
      show runFor 1 (eager.give order.command order.event) = next
      rw [runFor, hn]
      rfl
    obtain ⟨cycle, hcycle⟩ := Option.isSome_iff_exists.mp
      (show continuedEagerly.ownCycle.isSome = true by decide +kernel)
    have hw : continuedEagerly.store.tripwires = [] :=
      List.isEmpty_iff.mp (by decide +kernel)
    obtain ⟨-, hunheard⟩ :=
      interrupts_heard loaded_brief processes_brief honward hidle order hrace
    obtain ⟨count, last, hsteps, hnil, hanswered, -, hend⟩ :=
      hunheard hnone continuedEagerly cycle hn hcycle hw
    exact ⟨_, cycle, hrace, hnone, hn, hcycle, hw, count, last, hsteps, hnil, hanswered, hend rfl⟩

end Session

end TraceDebugger
