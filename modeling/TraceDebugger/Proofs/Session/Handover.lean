/-
What turns enter into the books of a session.

Whoever has a turn moves the books by one entry at most: the dispatcher takes a command, begins its
cycle or ends it, or a caller gets its answer.

* `Keeps.requestStep`, `Keeps.serve` — a pursuit asks for a step, and the engine processes it;
* `Keeps.beginCycle`, `Keeps.endCycle` — the dispatcher begins a cycle and ends it;
* `Keeps.settleReply`, `Keeps.resumeCaller` — a caller learns what became of its call;
* `Keeps.step` — one turn, one entry.
-/
import TraceDebugger.Proofs.Session.Ledger
import TraceDebugger.Proofs.Session.ArmedTurns

namespace TraceDebugger

namespace Ledger

variable {fit : Event → Prop} {ledger next : Ledger}

/-- A dispatcher that does not wait takes nothing. -/
theorem Hears.eq_of_ne_free (h : ledger.Hears fit next) (hd : ledger.desk ≠ .free) :
    next = ledger := by
  obtain rfl | ⟨_, _, hfree, -⟩ := h
  · rfl
  · exact absurd hfree hd

/-- The books are as they were, or have one more entry. -/
def Enters (ledger next : Ledger) : Prop := next = ledger ∨ ledger.Moves next

theorem Hears.enters (h : ledger.Hears fit next) : ledger.Enters next := by
  obtain rfl | ⟨event, command, hfree, -, hk, rfl⟩ := h
  · exact .inl rfl
  · obtain ⟨desk, call, bounds⟩ := ledger
    obtain rfl : desk = .free := hfree
    exact .inr (.takes hk)

end Ledger

namespace Session

variable {session next : Session} {ledger : Ledger} {desk : Desk} {call : Call} {event : Event}
  {command : Command} {bounds : List Event}

/-! ### Pursuits -/

theorem Keeps.finishRun (h : session.Keeps [] ledger) (fault : Option Fault) :
    (session.finishRun .own fault).Keeps [] ledger := (h.setRun rfl).later ⟨rfl, rfl⟩

/-- A pursuit asks for a step, and waits for its end. -/
theorem Keeps.requestStep (h : session.Keeps [] ledger) (pursuit : Pursuit) :
    ∃ ledger', ledger.Hears Event.Unbound ledger' ∧
      (session.requestStep .own pursuit).Keeps [] ledger' := by
  rw [Session.requestStep]
  split
  · have hticket : (session.take [.tock, .endOfTrace]).2.store.Aloof session.store.nextTicket :=
      h.fresh.aloof_take (by decide)
    have hnext : Event.next.Unbound := (by decide : EventKind.next ∉ EventKind.bounds)
    obtain ⟨ledger', hhears, hkeeps, haloof⟩ := (h.take [.tock, .endOfTrace]).put hnext
    -- the new ticket of the cycle is none of a caller's, whatever was published
    have hreached := haloof hticket
    refine ⟨ledger', hhears, ?_⟩
    have htake : session.take [.tock, .endOfTrace]
        = (session.store.nextTicket, (session.take [.tock, .endOfTrace]).2) := rfl
    rw [htake]
    dsimp only
    split
    · rename_i reached fault hput
      rw [hput] at hkeeps
      exact hkeeps.finishRun _
    · rename_i reached hput
      rw [hput] at hkeeps hreached
      split
      · exact (hkeeps.setRun rfl).atOnce ⟨rfl, rfl⟩
      · refine hkeeps.onCycle (fun _ => rfl) fun cycle hc ticket ht => ?_
        rcases List.mem_cons.mp ht with rfl | ht
        · exact hkeeps.aloof cycle hc _ List.mem_cons_self
        · obtain rfl := List.mem_singleton.mp ht
          exact hreached
  · exact ⟨ledger, .inl rfl, h.finishRun _⟩

theorem retains_reportHit (bench : Workbench) (pursuit : Pursuit) :
    bench.Retains (bench.reportHit pursuit) := by
  fun_cases Workbench.reportHit bench pursuit with
  | case1 => exact .refl bench
  | case2 => exact .of_recording rfl rfl
  | case3 => exact .refl bench

theorem Keeps.resumeRun (h : session.Keeps [] ledger) :
    ∃ ledger', ledger.Hears Event.Unbound ledger' ∧
      (session.resumeRun .own).Keeps [] ledger' := by
  have hfinish (fault : Option Fault) : ∃ ledger', ledger.Hears Event.Unbound ledger' ∧
      (session.finishRun .own fault).Keeps [] ledger' := ⟨ledger, .inl rfl, h.finishRun fault⟩
  rw [Session.resumeRun]
  split
  · exact ⟨ledger, .inl rfl, h⟩
  · split
    · exact ⟨ledger, .inl rfl, (h.setRun rfl).later ⟨rfl, rfl⟩⟩
    · split
      · split
        · exact h.requestStep _
        · exact hfinish _
      · rename_i pursuit _
        split
        · exact h.requestStep _
        · have hreported := h.onBench (retains_reportHit session.bench pursuit)
          exact ⟨ledger, .inl rfl, hreported.finishRun _⟩
        · exact hfinish _
      · exact ⟨ledger, .inl rfl, h⟩

theorem Keeps.settleRace (h : session.Keeps [] ledger) :
    (session.settleRace .own).Keeps [] ledger := by
  rw [Session.settleRace]
  split
  · exact h
  · split
    · exact h
    · have hsettled : (session.onCycle .own fun cycle => { cycle with settled := true }).Keeps []
          ledger := h.onCycle (fun _ => rfl) h.aloof
      exact hsettled.later ⟨rfl, rfl⟩

/-! ### The engine -/

/-- The channels have changed, and what the engine is about. -/
theorem Keeps.serves (h : session.Keeps [] ledger) {channels : List Channel} {given : Ticket}
    (hle : session.store.nextTicket ≤ given) (engine : EngineStatus) :
    ({ session with
        store := { session.store with channels, nextTicket := given }, engine } : Session).Keeps []
      ledger := by
  have hstore : (session.withStore
      { session.store with channels, nextTicket := given }).Keeps [] ledger :=
    h.withStore rfl h.wires (.refl _) (h.fresh.spares rfl rfl rfl hle) rfl
  exact hstore.elsewhere rfl rfl rfl rfl rfl rfl rfl rfl

theorem Keeps.halt (h : session.Keeps [] ledger) (channel : Ticket) (fault : Fault) :
    (session.halt channel fault).Keeps [] ledger := h.serves (Nat.le_refl _) (.halted fault)

theorem Keeps.awaitRequest (h : session.Keeps [] ledger) (channel : Ticket) :
    (session.awaitRequest channel).Keeps [] ledger := by
  rw [Session.awaitRequest]
  split
  · exact h.serves (Nat.le_refl _) (.awaitingRequest channel)
  · exact (h.serves (Nat.le_refl _) (.serving channel)).atOnce ⟨rfl, rfl⟩

theorem unbound_closing (bench : Workbench) : bench.closing.Unbound := by
  rw [Workbench.closing]
  split
  · exact (by decide : EventKind.tock ∉ EventKind.bounds)
  · exact (by decide : EventKind.endOfTrace ∉ EventKind.bounds)

/-- The engine processes a step. -/
theorem Keeps.serve (h : session.Keeps [] ledger) :
    ∃ ledger', ledger.Hears Event.Unbound ledger' ∧ session.serve.Keeps [] ledger' := by
  rw [Session.serve]
  split
  · rename_i channel _
    cases hf : session.store.fetch channel with
    | error fault => exact ⟨ledger, .inl rfl, h.halt channel fault⟩
    | ok fetched =>
      obtain ⟨request, store⟩ := fetched
      have hfetched : (session.withStore store).Keeps [] ledger := by
        rw [Store.fetch] at hf
        split at hf
        · cases hf
        · obtain ⟨-, rfl⟩ := Prod.mk.inj (Except.ok.inj hf)
          exact h.serves (Nat.le_refl _) session.engine
      -- whether the step is processed or fails half-way, nothing is published that is entered
      obtain ⟨ledger', hhears, hkeeps, -⟩ := hfetched.attempt hfetched.wires
        ((lasting_unbound (session.withStore store) ledger).advanceTrace
          Publishing.loaded (by decide : EventKind.tick ∉ EventKind.bounds) unbound_closing)
      refine ⟨ledger', hhears, ?_⟩
      dsimp only
      split
      · rename_i reached hattempt
        have hreached : ((session.withStore store).attempt Store.advanceTrace).1 = reached :=
          congrArg Prod.fst hattempt
        rw [hreached] at hkeeps
        exact hkeeps.awaitRequest channel
      · rename_i reached fault hattempt
        have hreached : ((session.withStore store).attempt Store.advanceTrace).1 = reached :=
          congrArg Prod.fst hattempt
        rw [hreached] at hkeeps
        exact hkeeps.halt channel fault
  · exact ⟨ledger, .inl rfl, h⟩

/-- The engine receives a trace. -/
theorem Keeps.receiveTrace (h : session.Keeps [] ledger) (event : Event) :
    ∃ ledger', ledger.Hears Event.Unbound ledger' ∧
      (session.receiveTrace event).Keeps [] ledger' := by
  have hchannel (engine : EngineStatus) :
      ({ session with store := (session.store.subscribe [.next]).2, engine } : Session).Keeps []
        ledger := h.serves (Nat.le_succ session.store.nextTicket) engine
  rw [Session.receiveTrace]
  dsimp only [Store.subscribe]
  -- the call targets may not be found; then the engine halts and publishes nothing
  split
  · rename_i fault _
    exact ⟨ledger, .inl rfl, hchannel (.halted fault)⟩
  · rename_i addresses _
    have hlogged := (hchannel session.engine).log LogLevel.debug "trace"
      s!"trace saved: {(event.payload.steps.getD []).length} steps, {addresses.length} call targets"
    have htargets : (Event.receiveAddresses addresses).Unbound :=
      (by decide : EventKind.receiveAddresses ∉ EventKind.bounds)
    obtain ⟨ledger', hhears, hkeeps, -⟩ := hlogged.put htargets
    refine ⟨ledger', hhears, ?_⟩
    split
    · rename_i reached hput
      have hreached := congrArg Prod.fst hput
      exact (hreached ▸ hkeeps).awaitRequest session.store.nextTicket
    · rename_i reached fault hput
      have hreached := congrArg Prod.fst hput
      exact (hreached ▸ hkeeps).serves (Nat.le_refl _) (.halted fault)

/-! ### The dispatcher -/

/-- What the dispatcher is about matters to a caller only if it crashes. -/
theorem Calls.alongside (h : Calls session desk call) {desk' : Desk}
    (ha : desk'.Alive → desk.Alive) : Calls session desk' call := by
  cases h with
  | nobody hc hr ht => exact .nobody hc hr fun hd => ht (ha hd)
  | issuing hc hr hw ho ht => exact .issuing hc hr hw ho fun hd => ht (ha hd)
  | waiting hc hr hw ht => exact .waiting hc hr hw fun hd => ht (ha hd)
  | ended hc hr hg ht => exact .ended hc hr hg fun hd => ht (ha hd)
  | answered hc hr ht => exact .answered hc hr fun hd => ht (ha hd)

/-- A dispatcher that crashes owes its caller nothing but the fault. -/
theorem Calls.crash (h : Calls session desk call) (fault : Fault) (hs : next.store = session.store)
    (hc : next.caller = session.caller) (hr : next.running = session.running) :
    Calls next (.crashed fault) call := by
  have hdead {p : Prop} (ha : (Desk.crashed fault).Alive) : p := absurd rfl (ha fault)
  cases h with
  | nobody hc' hr' => exact .nobody (hc.trans hc') (hr.trans hr') hdead
  | issuing hc' hr' hw ho =>
    exact .issuing (hc.trans hc') (hr.trans hr') (hs ▸ hw) (hs ▸ ho) hdead
  | waiting hc' hr' hw => exact .waiting (hc.trans hc') (hr.trans hr') (hs ▸ hw) hdead
  | ended hc' hr' hg => exact .ended (hc.trans hc') (hr.trans hr') (hs ▸ hg) hdead
  | answered hc' hr' => exact .answered (hc.trans hc') (hr.trans hr') hdead

/-- The dispatcher or the caller is about something else. -/
theorem Keeps.anew {pending : List Notice} (h : session.Keeps pending ledger)
    (hs : next.store = session.store) (hc : next.ownCycle = session.ownCycle)
    (hd : next.directCycle = session.directCycle) (hr : desk.running? = ledger.desk.running?)
    (ht : Tends next desk) (hcalls : Calls next desk call) :
    next.Keeps pending ⟨desk, call, ledger.bounds⟩ where
  -- what the store and the cycles hold stays, and the last two are given
  notices := hs ▸ h.notices
  listeners := hs ▸ h.listeners
  wires := hs ▸ h.wires
  loaded := by
    rw [bench, hs]
    exact h.loaded
  fresh := hs ▸ h.fresh
  direct := hd.trans h.direct
  bounds := hs ▸ h.bounds
  active := by
    rw [bench, hs]
    exact h.active.trans hr.symm
  cycle := by
    rw [hc]
    exact h.cycle.trans hr.symm
  aloof := by
    rw [hc, hs]
    exact h.aloof
  tends := ht
  calls := hcalls

theorem Tends.of_busy (h : Tends session .busy) :
    session.dispatcher = .working ∧ commandsOf session.turns = [] := by
  cases h with
  | busy hd ht => exact ⟨hd, ht⟩

theorem Tends.of_running (h : Tends session (.running command)) :
    session.dispatcher = .working ∧ commandsOf session.turns = [] := by
  cases h with
  | running hd ht => exact ⟨hd, ht⟩

theorem Keeps.crash (h : session.Keeps [] ⟨.busy, call, bounds⟩) (fault : Fault) :
    (session.crash fault).Keeps [] ⟨.crashed fault, call, bounds⟩ := by
  have hturns := h.tends.of_busy.2
  rw [Session.crash]
  dsimp only
  split
  · refine h.anew rfl rfl rfl rfl (.crashed rfl ?_) (h.calls.crash fault rfl rfl rfl)
    exact (commandsOf_append session.turns [.reply]).trans ((List.append_nil _).trans hturns)
  · exact h.anew rfl rfl rfl rfl (.crashed rfl hturns) (h.calls.crash fault rfl rfl rfl)

theorem Keeps.awaitCommand (h : session.Keeps [] ⟨.busy, call, bounds⟩) :
    session.awaitCommand.Keeps [] ⟨.free, call, bounds⟩ := by
  have hlogged := h.log LogLevel.debug "controller" "waiting for control action"
  have htaken := hlogged.take EventKind.commands
  refine htaken.anew rfl rfl rfl rfl
    (.free rfl (hlogged.fresh.waits_take EventKind.commands) htaken.tends.of_busy.2) ?_
  exact (htaken.calls.alongside fun _ => Desk.alive_busy).congr
    (htaken.fresh.spares rfl rfl rfl (Nat.le_refl _)) rfl rfl rfl

/-- The bound of a cycle is published. -/
theorem Keeps.put_bound {call' : Call} (h : session.Keeps [] ⟨.busy, call, bounds⟩)
    (hk : event.kind ∈ EventKind.bounds)
    (hdelivered : ∀ {store pending},
      (session.withStore store).Keeps pending ⟨.busy, call, event :: bounds⟩ →
        (session.withStore (store.deliver event)).Keeps (store.deliver event).notices
          ⟨.busy, call', event :: bounds⟩) :
    (∃ reached, session.put event = (reached, none) ∧
        reached.Keeps [] ⟨.busy, call', event :: bounds⟩) ∨
      ∃ reached fault, session.put event = (reached, some fault) ∧
        reached.Keeps [] ⟨.busy, call, event :: bounds⟩ := by
  -- what the listeners publish is no command, so a dispatcher that is busy hears nothing of it
  have hnoted := h.note_bound hk
  have hbusy : (⟨.busy, call, event :: bounds⟩ : Ledger).desk ≠ .free := by simp
  obtain ⟨after, hput, -, -, pending, ledger', hhears, hkeeps⟩ |
      ⟨fault, last, hput, -, -, pending, ledger', hhears, hkeeps⟩ :=
    (lasting_unbound _ _).put_cases (hnoted.publishing hnoted.wires)
  · obtain rfl := hhears.eq_of_ne_free hbusy
    exact .inl ⟨_, attempt_ok hput, (hdelivered hkeeps).tellAll⟩
  · obtain rfl := hhears.eq_of_ne_free hbusy
    exact .inr ⟨_, fault, attempt_error hput, hkeeps.tellAll⟩

/-- The cycle of a command has begun. -/
theorem Keeps.begun (h : session.Keeps [] ⟨.busy, call, bounds⟩) (command : Command)
    (event : Event) :
    Keeps ((((session.onStore fun store => store.onBench fun bench =>
        { bench with active := some command }).take [.interrupt]).2.setCycle .own
          (some { command, event, interrupt := session.store.nextTicket })).later (.run .own)) []
      ⟨.running command, call, bounds⟩ := by
  obtain ⟨hworking, hturns⟩ := h.tends.of_busy
  let marked := session.onStore fun store => store.onBench fun bench =>
    { bench with active := some command }
  have hmarked : session.store.Spares marked.store :=
    h.fresh.spares rfl rfl rfl (Nat.le_refl _)
  -- marking the command and waiting for an interrupt leave all other waits as they are
  have hs : session.store.Spares (marked.take [.interrupt]).2.store :=
    hmarked.trans (hmarked.fresh.spares_take [.interrupt])
  have hrun : commandsOf (session.turns ++ [.run .own]) = [] :=
    (commandsOf_append _ _).trans ((List.append_nil _).trans hturns)
  have hreplies : repliesOf (session.turns ++ [.run .own]) = repliesOf session.turns :=
    (repliesOf_append _ _).trans (List.append_nil _)
  exact {
    notices := hs.notices.trans h.notices
    listeners := h.listeners
    wires := h.wires
    loaded := h.loaded
    fresh := hs.fresh
    direct := h.direct
    bounds := h.bounds
    active := rfl
    cycle := rfl
    aloof := by
      intro cycle hc ticket ht
      obtain rfl := Option.some.inj hc
      obtain rfl := List.mem_singleton.mp ht
      exact hmarked.fresh.aloof_take (by decide)
    tends := .running hworking hrun
    calls := (h.calls.alongside fun _ => Desk.alive_busy).congr hs rfl rfl hreplies }

/-- The dispatcher begins the cycle of a command that it has taken. -/
theorem Keeps.beginCycle (h : session.Keeps [] ⟨.busy, call, bounds⟩)
    (hk : event.kind = .command command) :
    ∃ ledger', (⟨.holding event, call, bounds⟩ : Ledger).Moves ledger' ∧
      (session.beginCycle .own command event).Keeps [] ledger' := by
  rw [Session.beginCycle]
  have hbound : (Event.beginStep command).kind ∈ EventKind.bounds := List.mem_cons_self
  have hne : (Event.beginStep command).kind ≠ .endStep :=
    (by decide : EventKind.beginStep ≠ .endStep)
  -- nobody waits for it that the books tell of
  have hdelivered {store : Store} {pending : List Notice}
      (hkeeps : (session.withStore store).Keeps pending
        ⟨.busy, call, .beginStep command :: bounds⟩) :
      (session.withStore (store.deliver (.beginStep command))).Keeps
        (store.deliver (.beginStep command)).notices
        ⟨.busy, call, .beginStep command :: bounds⟩ := by
    obtain ⟨ledger', hhears, -, hdelivered⟩ := hkeeps.deliver hne
    obtain rfl := hhears.eq_of_ne_free (by simp)
    exact hdelivered
  obtain ⟨reached, hput, hkeeps⟩ | ⟨reached, fault, hput, hkeeps⟩ := h.put_bound hbound hdelivered
  · rw [hput]
    exact ⟨_, .begins hk, hkeeps.begun command event⟩
  · rw [hput]
    exact ⟨_, .fails hk, hkeeps.crash fault⟩

/-- Nobody but somebody aloof has ceased to wait. -/
theorem Keeps.cancel {other : Ticket} (h : session.Keeps [] ⟨.running command, call, bounds⟩)
    (ha : session.store.Aloof other) :
    (session.onStore (Store.cancel other)).Keeps [] ⟨.running command, call, bounds⟩ := by
  obtain ⟨hworking, hturns⟩ := h.tends.of_running
  have hend : EventKind.endStep ∈ [EventKind.endStep] := List.mem_cons_self
  have hcalls : Calls (session.onStore (Store.cancel other)) (.running command) call := by
    have hcalls : Calls session (.running command) call := h.calls
    cases hcalls with
    | nobody hc hr ht => exact .nobody hc hr ht
    | issuing hc hr hw ho ht => exact .issuing hc hr (hw.cancel (hw.ne_of_aloof hend ha)) ho ht
    | waiting hc hr hw ht => exact .waiting hc hr (hw.cancel (hw.ne_of_aloof hend ha)) ht
    | ended hc hr hg ht => exact .ended hc hr (hg.cancel other) fun hd => (ht hd).congr id rfl
    | answered hc hr ht => exact .answered hc hr ht
  exact ⟨h.notices, h.listeners, h.wires, h.loaded, h.fresh.cancel other, h.direct, h.bounds,
    h.active, h.cycle, fun cycle hc ticket ht => (h.aloof cycle hc ticket ht).cancel other,
    .running hworking hturns, hcalls⟩

theorem Keeps.closeCycle {cycle : Cycle} (h : session.Keeps [] ⟨.running command, call, bounds⟩)
    (hc : session.ownCycle = some cycle) (interrupted : Bool) :
    (session.closeCycle cycle interrupted).Keeps [] ⟨.busy, call, bounds⟩ := by
  have hcancelled := h.cancel (h.aloof cycle hc _ List.mem_cons_self)
  obtain ⟨hworking, hturns⟩ := hcancelled.tends.of_running
  let closed := session.setCycle .own none |>.onStore fun store =>
    (store.cancel cycle.interrupt).onBench fun bench => { bench with active := none }
  have hs : (session.onStore (Store.cancel cycle.interrupt)).store.Spares closed.store :=
    hcancelled.fresh.spares rfl rfl rfl (Nat.le_refl _)
  have hclosed : closed.Keeps [] ⟨.busy, call, bounds⟩ :=
    { notices := hcancelled.notices
      listeners := h.listeners
      wires := h.wires
      loaded := h.loaded
      fresh := hs.fresh
      direct := h.direct
      bounds := h.bounds
      active := rfl
      cycle := rfl
      aloof := fun _ hnone => by cases hnone
      tends := .busy hworking hturns
      calls := (hcancelled.calls.alongside fun _ => Desk.alive_running _).congr hs rfl rfl rfl }
  -- an interrupted cycle is logged, which the books do not notice
  cases interrupted with
  | false => exact hclosed
  | true => exact hclosed.log _ _ _

/-- A cycle whose end cannot be published, or that ends by a fault, crashes the dispatcher. -/
theorem endCycle_of_crash {cycle : Cycle} {interrupted : Bool} {reached : Session}
    {putFault fault : Option Fault} {last : Fault}
    (h : (session.closeCycle cycle interrupted).put (.endStep cycle.command interrupted)
      = (reached, putFault)) (hl : putFault.or fault = some last) :
    session.endCycle .own cycle interrupted fault = reached.crash last := by
  simp only [Session.closeCycle] at h
  simp only [Session.endCycle, h]
  cases putFault with
  | none =>
    obtain rfl : fault = some last := hl
    rfl
  | some putFault =>
    obtain rfl := Option.some.inj hl
    rfl

/-- The dispatcher ends its cycle. -/
theorem Keeps.endCycle {cycle : Cycle}
    (h : session.Keeps [] ⟨.running cycle.command, call, bounds⟩)
    (hc : session.ownCycle = some cycle) (hi : ∀ reply, call ≠ .issuing reply) (interrupted : Bool)
    (fault : Option Fault) :
    ∃ ledger', (⟨.running cycle.command, call, bounds⟩ : Ledger).Moves ledger' ∧
      (session.endCycle .own cycle interrupted fault).Keeps [] ledger' := by
  have hclosed := h.closeCycle hc interrupted
  have hbound : (Event.endStep cycle.command interrupted).kind ∈ EventKind.bounds :=
    List.mem_cons_of_mem _ List.mem_cons_self
  -- the end is published even where the command has failed, and the publication may fail as well
  obtain ⟨reached, hput, hkeeps⟩ | ⟨reached, putFault, hput, hkeeps⟩ :=
    hclosed.put_bound hbound fun hkeeps => hkeeps.deliver_end rfl hi cycle.command interrupted
  · cases fault with
    | none =>
      rw [endCycle_of_put hput]
      exact ⟨_, .ends interrupted, hkeeps.awaitCommand⟩
    | some fault =>
      rw [endCycle_of_crash hput rfl]
      exact ⟨_, .breaks interrupted (.inr rfl), hkeeps.crash fault⟩
  · rw [endCycle_of_crash hput rfl]
    exact ⟨_, .breaks interrupted (.inl rfl), hkeeps.crash putFault⟩

theorem Keeps.resumeCycle (h : session.Keeps [] ledger)
    (hi : ∀ reply, ledger.call ≠ .issuing reply) :
    ∃ ledger', ledger.Enters ledger' ∧ (session.resumeCycle .own).Keeps [] ledger' := by
  rw [Session.resumeCycle]
  split
  · exact ⟨ledger, .inl rfl, h⟩
  · rename_i cycle hc
    obtain ⟨desk, call, bounds⟩ := ledger
    obtain rfl : desk = .running cycle.command :=
      Desk.eq_running (h.cycle.symm.trans (congrArg _ hc))
    -- only the end of the cycle is entered in the books; the other cases change how it runs
    split
    · rename_i fault _
      obtain ⟨ledger', hmoves, hkeeps⟩ := h.endCycle hc hi false fault
      exact ⟨ledger', .inr hmoves, hkeeps⟩
    · obtain ⟨ledger', hmoves, hkeeps⟩ := h.endCycle hc hi true none
      exact ⟨ledger', .inr hmoves, hkeeps⟩
    · exact ⟨_, .inl rfl, h.onCycle (fun _ => rfl) h.aloof⟩
    · rename_i ticket pursuit hrun
      refine ⟨_, .inl rfl, ?_⟩
      have hcancelled := h.cancel (h.aloof cycle hc ticket (by
        rw [Cycle.tickets, hrun]
        exact List.mem_cons_of_mem _ List.mem_cons_self))
      have hstopping : ((session.onStore (Store.cancel ticket)).onCycle .own fun cycle =>
          { cycle with stopping := true, run := .queued (some pursuit) }).Keeps []
            ⟨.running cycle.command, call, bounds⟩ := by
        refine hcancelled.onCycle (fun _ => rfl) fun cycle' hc' other hother => ?_
        obtain rfl := List.mem_singleton.mp hother
        exact hcancelled.aloof cycle' hc' _ List.mem_cons_self
      exact hstopping.later ⟨rfl, rfl⟩

/-! ### The caller -/

variable {turn : Turn} {rest : List Turn}

/-- The dispatcher of a session has crashed just if its books say so. -/
theorem Tends.crashed_iff (h : Tends session desk) {fault : Fault} :
    session.dispatcher = .crashed fault ↔ desk = .crashed fault := by
  cases h with
  | crashed hd => rw [hd, DispatcherStatus.crashed.injEq, Desk.crashed.injEq]
  | free hd | told hd | holding hd | busy hd | running hd => simp [hd]

/-- A turn has been taken that is not one of the dispatcher. -/
theorem Tends.popped (h : Tends session desk) (hf : session.store.Fresh)
    (hq : session.turns = turn :: rest) (ht : commandsOf [turn] = []) :
    Tends { session with turns := rest } desk := by
  refine h.congr (.refl hf) rfl ?_
  rw [hq]
  exact ((commandsOf_append [turn] rest).trans (by rw [ht, List.nil_append])).symm

/-- Once the dispatcher has crashed, the books say nothing of the turns of a caller. -/
theorem Keeps.popped_crashed {fault : Fault} (h : session.Keeps [] ⟨.crashed fault, call, bounds⟩)
    (hq : session.turns = turn :: rest) (ht : commandsOf [turn] = []) :
    ({ session with turns := rest } : Session).Keeps [] ⟨.crashed fault, call, bounds⟩ :=
  h.anew rfl rfl rfl rfl (h.tends.popped h.fresh hq ht) (h.calls.crash fault rfl rfl rfl)

/-- While the dispatcher has not crashed, a caller has a turn only if it is owed an answer. -/
theorem Calls.exists_ended (h : Calls session desk call) (hd : desk.Alive)
    (hr : repliesOf session.turns ≠ []) :
    ∃ reply settled command interrupted, call = .ended command interrupted ∧
      session.caller = .commanding reply settled ∧
      session.store.Got reply (.endStep command interrupted) ∧ session.Due reply settled ∧
      session.running.isSome = true := by
  cases h with
  | @ended reply settled running command interrupted hc hs hg ht =>
    exact ⟨reply, settled, command, interrupted, rfl, hc, hg, ht hd, by rw [hs]; rfl⟩
  | nobody _ _ ht => exact absurd (ht hd) hr
  | issuing _ _ _ _ ht => exact absurd (ht hd) hr
  | waiting _ _ _ ht => exact absurd (ht hd).2 hr
  | answered _ _ ht => exact absurd (ht hd) hr

/-- Once the dispatcher has crashed, it does not matter how far a caller's wait is decided. -/
theorem Calls.decided {fault : Fault} {reply : Ticket} {settled settled' : Bool}
    (h : Calls session (.crashed fault) call) (hc : session.caller = .commanding reply settled)
    (hs : next.store = session.store) (hn : next.caller = .commanding reply settled')
    (hr : next.running = session.running) : Calls next (.crashed fault) call := by
  have hdead {p : Prop} (ha : (Desk.crashed fault).Alive) : p := absurd rfl (ha fault)
  cases h with
  | waiting hc' hr' hw =>
    obtain ⟨rfl, -⟩ := CallerStatus.commanding.inj (hc'.symm.trans hc)
    exact .waiting hn (hr.trans hr') (hs ▸ hw) hdead
  | ended hc' hr' hg =>
    obtain ⟨rfl, -⟩ := CallerStatus.commanding.inj (hc'.symm.trans hc)
    exact .ended hn (hr.trans hr') (hs ▸ hg) hdead
  | nobody hc' => cases hc'.symm.trans hc
  | issuing hc' => cases hc'.symm.trans hc
  | answered hc' => cases hc'.symm.trans hc

theorem settleReply_undecided {reply : Ticket} (h : session.caller = .commanding reply false) :
    session.settleReply = { session with caller := .commanding reply true }.later .caller := by
  rw [settleReply, h]

theorem settleReply_decided (h : ∀ reply, session.caller ≠ .commanding reply false) :
    session.settleReply = session := by
  rw [settleReply]
  split
  · rename_i reply hc
    exact absurd hc (h reply)
  · rfl

theorem finishCommand_crashed {fault : Fault} (h : session.dispatcher = .crashed fault)
    (reply : Ticket) :
    session.finishCommand reply = { session with running := none }.answer (.error fault) := by
  fun_cases finishCommand reply session with
  | case1 _ fault' hd =>
    obtain rfl := DispatcherStatus.crashed.inj (h.symm.trans hd)
    rfl
  | case2 _ _ _ hd => exact absurd h (hd fault)
  | case3 _ _ hd => exact absurd h (hd fault)

theorem finishCommand_ended {reply : Ticket} {interrupted : Bool}
    (hd : ∀ fault, session.dispatcher ≠ .crashed fault)
    (ho : session.store.outcome? reply = some (.endStep command interrupted)) :
    session.finishCommand reply
      = { session with running := none }.answer (.ok (.flag !interrupted)) := by
  fun_cases finishCommand reply session with
  | case1 _ fault hcrashed => exact absurd hcrashed (hd fault)
  | case2 _ event hevent =>
    obtain rfl := Option.some.inj (ho.symm.trans hevent)
    rfl
  | case3 _ hnone => cases ho.symm.trans hnone

/-- A caller that learns that its wait is decided takes its turn later. -/
theorem Tends.decided (h : Tends session desk) (hf : session.store.Fresh) (reply : Ticket) :
    Tends ({ session with caller := .commanding reply true }.later .caller) desk := by
  refine h.congr (.refl hf) rfl ?_
  exact (commandsOf_append session.turns [.caller]).trans (List.append_nil _)

theorem Keeps.settleReply_crashed {fault : Fault}
    (h : session.Keeps [] ⟨.crashed fault, call, bounds⟩) :
    session.settleReply.Keeps [] ⟨.crashed fault, call, bounds⟩ := by
  by_cases hc : ∃ reply, session.caller = .commanding reply false
  · obtain ⟨reply, hc⟩ := hc
    rw [settleReply_undecided hc]
    exact h.anew rfl rfl rfl rfl (h.tends.decided h.fresh reply) (h.calls.decided hc rfl rfl rfl)
  · rw [settleReply_decided fun reply heq => hc ⟨reply, heq⟩]
    exact h

/-- The caller's wait for its command is decided. -/
theorem Keeps.settleReply (h : session.Keeps [] ledger) (hq : session.turns = .reply :: rest) :
    (({ session with turns := rest } : Session).settleReply).Keeps [] ledger := by
  obtain ⟨desk, call, bounds⟩ := ledger
  obtain hd | ⟨fault, rfl⟩ := desk.alive_or_crashed
  · let popped : Session := { session with turns := rest }
    have htends : Tends popped desk := h.tends.popped h.fresh hq rfl
    have hreplies : repliesOf session.turns = .reply :: repliesOf rest := by
      rw [hq]
      rfl
    obtain ⟨reply, settled, command, interrupted, rfl, hc, hg, hdue, hr⟩ :=
      h.calls.exists_ended hd (by simp [hreplies])
    obtain ⟨running, hr⟩ := Option.isSome_iff_exists.mp hr
    -- the first such turn decides the wait, and the others find it decided
    cases settled with
    | false =>
      have hundecided : popped.caller = .commanding reply false := hc
      have huntold : Notice.taken reply ∉ session.store.notices := by simp [h.notices]
      rw [settleReply_undecided hundecided]
      exact h.anew rfl rfl rfl rfl (htends.decided h.fresh reply) (.ended rfl hr hg fun _ =>
        ⟨huntold, repliesOf rest, fun turn ht => hdue turn (hreplies ▸ List.mem_cons_of_mem _ ht),
          repliesOf_append rest _⟩)
    | true =>
      have hdecided (other : Ticket) : popped.caller ≠ .commanding other false :=
        fun heq => by cases hc.symm.trans heq
      rw [settleReply_decided hdecided]
      obtain ⟨huntold, replies, hall, heq⟩ := hdue
      refine h.anew rfl rfl rfl rfl htends (.ended hc hr hg fun _ => ⟨huntold, ?_⟩)
      rw [hreplies] at heq
      cases replies with
      | nil => cases heq
      | cons _ replies =>
        exact ⟨replies, fun turn ht => hall turn (List.mem_cons_of_mem _ ht), (List.cons.inj heq).2⟩
  · exact (h.popped_crashed hq rfl).settleReply_crashed

/-- A caller that takes its turn is the last to learn that its command is over. -/
theorem Due.eq_nil_of_caller {reply : Ticket} {settled : Bool} {turns : List Turn}
    (h : session.Due reply settled) (hr : repliesOf session.turns = .caller :: turns) :
    turns = [] := by
  cases settled with
  | false =>
    have hfirst := h .caller (hr ▸ List.mem_cons_self)
    cases hfirst
  | true =>
    obtain ⟨-, replies, hall, heq⟩ := h
    rw [hr] at heq
    cases replies with
    | nil => exact (List.cons.inj heq).2
    | cons turn replies =>
      have hfirst := hall turn List.mem_cons_self
      rw [← (List.cons.inj heq).1] at hfirst
      cases hfirst

/-- Once the dispatcher has crashed, whoever waits for the end of a command is given the fault. -/
theorem Keeps.resumeCaller_crashed {fault : Fault}
    (h : session.Keeps [] ⟨.crashed fault, call, bounds⟩) :
    ∃ ledger', Ledger.Enters ⟨.crashed fault, call, bounds⟩ ledger' ∧
      session.resumeCaller.Keeps [] ledger' := by
  have hcrashed : session.dispatcher = .crashed fault := h.tends.crashed_iff.mpr rfl
  have hgives {reply : Ticket} {settled : Bool} (hc : session.caller = .commanding reply settled)
      (hn : ∀ result, call ≠ .answered result) :
      ∃ ledger', Ledger.Enters ⟨.crashed fault, call, bounds⟩ ledger' ∧
        session.resumeCaller.Keeps [] ledger' := by
    refine ⟨_, .inr (.gives hn), ?_⟩
    rw [Session.resumeCaller, hc]
    dsimp only
    rw [finishCommand_crashed hcrashed]
    exact h.anew rfl rfl rfl rfl (h.tends.congr (.refl h.fresh) rfl rfl)
      (.answered rfl rfl fun hd => absurd rfl (hd fault))
  have hstays (hr : session.resumeCaller = session) :
      ∃ ledger', Ledger.Enters ⟨.crashed fault, call, bounds⟩ ledger' ∧
        session.resumeCaller.Keeps [] ledger' := by
    rw [hr]
    exact ⟨_, .inl rfl, h⟩
  have hcalls : Calls session (.crashed fault) call := h.calls
  -- whether the end of the command has come makes no difference any more
  cases hcalls with
  | nobody hc => exact hstays (by rw [Session.resumeCaller, hc])
  | issuing hc => exact hstays (by rw [Session.resumeCaller, hc])
  | answered hc => exact hstays (by rw [Session.resumeCaller, hc])
  | waiting hc => exact hgives hc (by simp)
  | ended hc => exact hgives hc (by simp)

/-- The caller gets its answer. -/
theorem Keeps.resumeCaller (h : session.Keeps [] ledger) (hq : session.turns = .caller :: rest) :
    ∃ ledger', ledger.Enters ledger' ∧
      (({ session with turns := rest } : Session).resumeCaller).Keeps [] ledger' := by
  obtain ⟨desk, call, bounds⟩ := ledger
  obtain hd | ⟨fault, rfl⟩ := desk.alive_or_crashed
  · let popped : Session := { session with turns := rest }
    have htends : Tends popped desk := h.tends.popped h.fresh hq rfl
    have hreplies : repliesOf session.turns = .caller :: repliesOf rest := by
      rw [hq]
      rfl
    obtain ⟨reply, settled, command, interrupted, rfl, hc, hg, hdue, -⟩ :=
      h.calls.exists_ended hd (by simp [hreplies])
    -- a caller has its turn when the end of its command has been published
    have hanswer : popped.resumeCaller
        = { popped with running := none }.answer (.ok (.flag !interrupted)) := by
      rw [Session.resumeCaller, show popped.caller = _ from hc]
      exact finishCommand_ended (fun fault hcrashed => hd fault (h.tends.crashed_iff.mp hcrashed))
        hg.got
    refine ⟨_, .inr (.answers hd), ?_⟩
    rw [hanswer]
    exact h.anew rfl rfl rfl rfl (htends.congr (.refl h.fresh) rfl rfl)
      (.answered rfl rfl fun _ => hdue.eq_nil_of_caller hreplies)
  · exact (h.popped_crashed hq rfl).resumeCaller_crashed

/-! ### Turns -/

/-- The turns of a cycle beside the dispatcher. -/
def Beside (turn : Turn) : Prop :=
  turn = .run .direct ∨ turn = .race .direct ∨ turn = .cycle .direct

/-- Without such a cycle nothing happens in them. -/
theorem takeTurn_beside {turn : Turn} (hb : Beside turn) (h : session.directCycle = none) :
    session.takeTurn turn = session := by
  have hnone : session.cycle? .direct = none := h
  obtain rfl | rfl | rfl := hb
  · rw [takeTurn, Session.resumeRun, hnone]
  · rw [takeTurn, Session.settleRace, hnone]
  · rw [takeTurn, Session.resumeCycle, hnone]

/-- The dispatcher begins the cycle of the command that it has taken. -/
theorem Keeps.takeCommand (h : session.Keeps [] ledger)
    (hq : session.turns = .command event :: rest) :
    ∃ ledger', ledger.Enters ledger' ∧
      (({ session with turns := rest } : Session).takeTurn (.command event)).Keeps [] ledger' := by
  obtain ⟨desk, call, bounds⟩ := ledger
  have hcommands : commandsOf session.turns = event :: commandsOf rest := by
    rw [hq]
    rfl
  have hreplies : repliesOf rest = repliesOf session.turns := by
    rw [hq]
    rfl
  have hnone {p : Prop} (ht : commandsOf session.turns = []) : p := by
    rw [hcommands] at ht
    cases ht
  have htends : Tends session desk := h.tends
  -- only a dispatcher that holds a command has a turn to begin its cycle
  cases htends with
  | free _ _ ht => exact hnone ht
  | told _ _ _ _ ht => exact hnone ht
  | busy _ ht => exact hnone ht
  | running _ ht => exact hnone ht
  | crashed _ ht => exact hnone ht
  | holding hd hk ht =>
    obtain ⟨rfl, hrest⟩ := List.cons.inj (hcommands.symm.trans ht)
    have hcalls : Calls session .busy call := h.calls.alongside fun _ => Desk.alive_holding event
    have hbusy : ({ session with turns := rest } : Session).Keeps [] ⟨.busy, call, bounds⟩ :=
      h.anew rfl rfl rfl rfl (.busy hd hrest) (hcalls.congr (.refl h.fresh) rfl rfl hreplies)
    obtain ⟨ledger', hmoves, hkeeps⟩ := (hbusy.log LogLevel.debug "controller"
      ("got control action " ++ event.kind.name)).beginCycle hk
    refine ⟨ledger', .inr hmoves, ?_⟩
    rw [takeTurn, hk]
    rw [hk] at hkeeps
    exact hkeeps

/-- **A turn makes one entry in the books at most.** -/
theorem Keeps.step (h : session.Keeps [] ledger) (hi : ∀ reply, ledger.call ≠ .issuing reply)
    (hs : session.step? = some next) :
    ∃ ledger', ledger.Enters ledger' ∧ next.Keeps [] ledger' := by
  rw [step?] at hs
  split at hs
  · cases hs
  · rename_i turn rest hq
    obtain rfl := Option.some.inj hs
    let popped : Session := { session with turns := rest }
    have hquiet (ht : Quiet turn) : popped.Keeps [] ledger := by
      refine h.elsewhere rfl rfl rfl rfl rfl rfl ?_ ?_
      · rw [hq]
        exact ((commandsOf_append [turn] rest).trans (by rw [ht.1, List.nil_append])).symm
      · rw [hq]
        exact ((repliesOf_append [turn] rest).trans (by rw [ht.2, List.nil_append])).symm
    have hheard {after : Session} (hc : ∃ ledger', ledger.Hears Event.Unbound ledger' ∧
        after.Keeps [] ledger') : ∃ ledger', ledger.Enters ledger' ∧ after.Keeps [] ledger' := by
      obtain ⟨ledger', hhears, hkeeps⟩ := hc
      exact ⟨ledger', hhears.enters, hkeeps⟩
    have hbeside (hb : Beside turn) (ht : Quiet turn) :
        ∃ ledger', ledger.Enters ledger' ∧ (popped.takeTurn turn).Keeps [] ledger' := by
      refine ⟨ledger, .inl rfl, ?_⟩
      rw [takeTurn_beside hb (hquiet ht).direct]
      exact hquiet ht
    -- the books are about commands and the answers to them, so most turns leave them alone
    cases turn with
    | trace event => exact hheard ((hquiet ⟨rfl, rfl⟩).receiveTrace event)
    | engine => exact hheard (hquiet ⟨rfl, rfl⟩).serve
    | command event => exact h.takeCommand hq
    | reply => exact ⟨ledger, .inl rfl, h.settleReply hq⟩
    | caller => exact h.resumeCaller hq
    | run lane =>
      cases lane with
      | own => exact hheard (hquiet ⟨rfl, rfl⟩).resumeRun
      | direct => exact hbeside (.inl rfl) ⟨rfl, rfl⟩
    | race lane =>
      cases lane with
      | own => exact ⟨ledger, .inl rfl, (hquiet ⟨rfl, rfl⟩).settleRace⟩
      | direct => exact hbeside (.inr (.inl rfl)) ⟨rfl, rfl⟩
    | cycle lane =>
      cases lane with
      | own => exact (hquiet ⟨rfl, rfl⟩).resumeCycle hi
      | direct => exact hbeside (.inr (.inr rfl)) ⟨rfl, rfl⟩

end Session

end TraceDebugger
