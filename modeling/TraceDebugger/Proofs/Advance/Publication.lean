/-
Publishing in a session's store.

The store of a session is `Wired`: it has the session's listeners and slices and no tripwires.
There an event that nobody hears and that the slices can take is noted, taken in and delivered
(`putWithin_unheard`); a TICK is followed by the answers of the listeners of a step, in order, and
these reach nobody (`put_tick`).

* `advanceTrace_ok` — a step whose consequences can be found is processed: TICK, the consequences
  and the closing event are published, the slices take them, and only the closing event is
  delivered;
* `advanceTrace_error` — otherwise the fault is raised and no closing event is published.
-/
import TraceDebugger.Proofs.Advance.Sight

namespace TraceDebugger

/-- The kinds of the events that processing a step may cause. -/
def EventKind.derived : List EventKind := [.jump, .call, .create, .returnCall, .assign]

theorem Event.Derived.kind_mem {event : Event} (h : event.Derived) :
    event.kind ∈ EventKind.derived := by
  cases h <;> exact List.mem_of_elem_eq_true rfl

/-- The kinds of the events by which a step is processed. -/
def EventKind.ofSteps : List EventKind := .tick :: derived ++ [.tock, .endOfTrace]

theorem Workbench.kinds_of_passage {bench : Workbench} {events : List Event}
    (hp : bench.passage = .ok events) : ∀ event ∈ events, event.kind ∈ EventKind.ofSteps := by
  rw [passage] at hp
  split at hp
  case isTrue =>
    obtain ⟨found, hfound, rfl⟩ := exists_of_map_eq_ok hp
    obtain ⟨lines, events, fault, -, hderived, hgather⟩ := bench.hearing_step
    cases fault with
    | some fault => cases hfound.symm.trans hgather
    | none =>
      obtain rfl := Except.ok.inj (hfound.symm.trans hgather)
      intro event he
      -- the TICK, what follows from the step, and the closing event
      rcases List.mem_cons.mp he with rfl | he
      · exact List.mem_cons_self
      rcases List.mem_append.mp he with he | he
      · exact List.mem_append_left _ (List.mem_cons_of_mem _ (hderived event he).kind_mem)
      · obtain rfl := List.mem_singleton.mp he
        rw [closing]
        split
        · exact (by decide : EventKind.tock ∈ EventKind.ofSteps)
        · exact (by decide : EventKind.endOfTrace ∈ EventKind.ofSteps)
  case isFalse =>
    obtain rfl := Except.ok.inj hp
    intro event he
    obtain rfl := List.mem_singleton.mp he
    exact (by decide : EventKind.endOfTrace ∈ EventKind.ofSteps)

namespace Store

variable {store : Store} {event : Event}

/-! ### Stores of sessions -/

/-- The store has the listeners and the slices of a session, and no tripwires. -/
structure Wired (store : Store) : Prop where
  listeners : store.listeners = Session.listeners
  order : store.bench.order = Session.slices
  tripwires : store.tripwires = []

/-- Somebody waits for events of a kind. -/
def Awaits (store : Store) (kind : EventKind) : Prop :=
  (∃ taker ∈ store.takers, kind ∈ taker.kinds) ∨
    ∃ channel ∈ store.channels, channel.isOpen = true ∧ kind ∈ channel.kinds

/-- Nobody waits for a TICK or for what follows from it. -/
def Unwatched (store : Store) : Prop :=
  ∀ kind ∈ EventKind.tick :: EventKind.derived, ¬ store.Awaits kind

/-- The store after some events have been published, with another workbench. -/
def record (store : Store) (bench : Workbench) (events : List Event) : Store :=
  { store with bench, published := events.reverse ++ store.published }

theorem record_record (store : Store) (bench bench' : Workbench) (events events' : List Event) :
    (store.record bench events).record bench' events'
      = store.record bench' (events ++ events') := by
  simp only [record, List.reverse_append, List.append_assoc]

theorem Wired.record (h : store.Wired) (bench : Workbench) (events : List Event)
    (ho : bench.order = store.bench.order := by rfl) : (store.record bench events).Wired :=
  ⟨h.listeners, ho.trans h.order, h.tripwires⟩

theorem deliver_of_not_awaits (h : ¬ store.Awaits event.kind) : store.deliver event = store := by
  have ht : ∀ taker ∈ store.takers, taker.kinds.contains event.kind = false := by
    intro taker htaker
    rw [Bool.eq_false_iff, ne_eq, List.contains_iff_mem]
    exact fun hk => h (.inl ⟨taker, htaker, hk⟩)
  have hc : ∀ channel ∈ store.channels,
      (channel.isOpen && channel.kinds.contains event.kind) = false := by
    intro channel hchannel
    rw [Bool.eq_false_iff, ne_eq, Bool.and_eq_true, List.contains_iff_mem]
    exact fun hk => h (.inr ⟨channel, hchannel, hk⟩)
  -- so nobody is served, nobody leaves, and no channel is filled
  have hserved : (store.takers.filter fun taker => taker.kinds.contains event.kind) = [] :=
    List.filter_eq_nil_iff.mpr fun taker htaker => by rw [ht taker htaker]; exact Bool.false_ne_true
  have hleft : (store.takers.filter fun taker => !taker.kinds.contains event.kind) = store.takers :=
    List.filter_eq_self.mpr fun taker htaker => by rw [ht taker htaker]; rfl
  have hnone : (store.channels.filter fun channel =>
      channel.isOpen && channel.kinds.contains event.kind) = [] :=
    List.filter_eq_nil_iff.mpr fun channel hchannel => by
      rw [hc channel hchannel]; exact Bool.false_ne_true
  have hsame : (store.channels.map fun channel =>
      if channel.isOpen && channel.kinds.contains event.kind then
        { channel with buffer := channel.buffer ++ [event] }
      else channel) = store.channels := by
    refine (List.map_congr_left fun channel hchannel => ?_).trans (List.map_id _)
    rw [hc channel hchannel]
    rfl
  simp only [deliver, hserved, hleft, hnone, hsame, List.map_nil, List.reverse_nil, List.nil_append,
    List.append_nil]

/-! ### One event -/

theorem run_bind_ok {α β : Type} {x : StoreM α} {f : α → StoreM β} {s s' : Store} {a : α}
    (h : x.run s = .ok a s') : (x >>= f).run s = (f a).run s' := by
  show EStateM.bind x f s = _
  rw [EStateM.bind, show x s = _ from h]
  rfl

theorem run_bind_error {α β : Type} {x : StoreM α} {f : α → StoreM β} {s s' : Store} {fault : Fault}
    (h : x.run s = .error fault s') : (x >>= f).run s = .error fault s' := by
  show EStateM.bind x f s = _
  rw [EStateM.bind, show x s = _ from h]

theorem run_modify_bind {β : Type} (change : Store → Store) (f : PUnit → StoreM β) (s : Store) :
    (modify change >>= f).run s = (f ()).run (change s) := rfl

theorem run_get_bind {β : Type} (f : Store → StoreM β) (s : Store) :
    (get >>= f).run s = (f s).run s := rfl

/-- The listeners hear an event, and their answers are published. -/
def hearAll (depth : Nat) (event : Event) (listeners : List Listener) : StoreM Unit :=
  listeners.forM fun listener => do (← hear event listener).forM (putWithin depth)

theorem takeIn_note (h : store.Wired) {slices : Slices}
    (hr : store.bench.slices.reduce event Session.slices = (slices, none)) :
    (takeIn event).run (note event store)
      = .ok () (store.record { store.bench with slices } [event]) := by
  rw [← h.order] at hr
  show takeIn event (note event store) = _
  simp only [takeIn, note, Workbench.reduce, hr]
  rfl

/-- An event that the slices can take is noted and taken in; then the listeners for its kind hear
it; then it is delivered. -/
theorem putWithin_ok (h : store.Wired) (depth : Nat) {slices : Slices}
    (hr : store.bench.slices.reduce event Session.slices = (slices, none)) {bench : Workbench}
    {events : List Event} (ho : bench.order = store.bench.order)
    (hh : (hearAll depth event (store.hearers event.kind)).run
        (store.record { store.bench with slices } [event])
      = .ok () (store.record bench (event :: events))) :
    (putWithin (depth + 1) event).run store
      = .ok () (deliver event (store.record bench (event :: events))) := by
  have hw := h.record bench (event :: events) ho
  rw [putWithin, run_modify_bind, run_bind_ok (takeIn_note h hr), run_get_bind]
  refine (run_bind_ok hh).trans ?_
  rw [run_get_bind, hw.tripwires]
  rfl

theorem putWithin_error (h : store.Wired) (depth : Nat) {slices : Slices}
    (hr : store.bench.slices.reduce event Session.slices = (slices, none)) {fault : Fault}
    {reached : Store}
    (hh : (hearAll depth event (store.hearers event.kind)).run
        (store.record { store.bench with slices } [event]) = .error fault reached) :
    (putWithin (depth + 1) event).run store = .error fault reached := by
  rw [putWithin, run_modify_bind, run_bind_ok (takeIn_note h hr), run_get_bind]
  exact run_bind_error hh

theorem putWithin_unheard (h : store.Wired) (depth : Nat) {slices : Slices}
    (hr : store.bench.slices.reduce event Session.slices = (slices, none))
    (hl : store.hearers event.kind = []) :
    (putWithin (depth + 1) event).run store
      = .ok () (deliver event (store.record { store.bench with slices } [event])) :=
  putWithin_ok h depth hr rfl (by rw [hl]; rfl)

/-! ### A step -/

theorem hearers_derived (h : store.Wired) (hd : event.Derived) : store.hearers event.kind = [] := by
  rw [hearers, h.listeners]
  cases hd <;> rfl

theorem putWithin_derived (h : store.Wired) (hu : store.Unwatched) (depth : Nat)
    (hd : event.Derived) :
    (putWithin (depth + 1) event).run store
      = .ok () (store.record (store.bench.takeAll [event]) [event]) := by
  rw [putWithin_unheard h depth (Slices.reduce_derived hd _).1 (hearers_derived h hd)]
  exact congrArg _ (deliver_of_not_awaits (hu _ (List.mem_cons_of_mem _ hd.kind_mem)))

theorem forM_derived (depth : Nat) {events : List Event} (hd : ∀ event ∈ events, event.Derived) :
    ∀ {store : Store}, store.Wired → store.Unwatched →
      (events.forM (putWithin (depth + 1))).run store
        = .ok () (store.record (store.bench.takeAll events) events) := by
  induction events with
  | nil => exact fun _ _ => rfl
  | cons event events ih =>
    intro store h hu
    show (putWithin (depth + 1) event >>= fun _ =>
      events.forM (putWithin (depth + 1))).run store = _
    rw [run_bind_ok (putWithin_derived h hu depth (hd event List.mem_cons_self)),
      ih (fun e he => hd e (List.mem_cons_of_mem _ he))
        (h.record _ _) hu, record_record]
    rfl

/-- A listener that answers an event only with what may follow from a step. -/
def Quiet (event : Event) (listener : Listener) : Prop :=
  ∀ bench : Workbench, (bench.react event listener).1.order = bench.order ∧
    ∀ events, (bench.react event listener).2 = .ok events → ∀ e ∈ events, e.Derived

/-- How a publication goes on after some listeners have been heard. -/
def afterHearing (store : Store) :
    Workbench × List Event × Option Fault → EStateM.Result Fault Store Unit
  | (bench, events, none) => .ok () (store.record bench events)
  | (bench, events, some fault) => .error fault (store.record bench events)

theorem hearAll_run (depth : Nat) {listeners : List Listener}
    (hq : ∀ l ∈ listeners, Quiet event l) :
    ∀ {store : Store}, store.Wired → store.Unwatched →
      (hearAll (depth + 1) event listeners).run store
        = store.afterHearing (store.bench.hearing event listeners) := by
  induction listeners with
  | nil => exact fun _ _ => rfl
  | cons listener rest ih =>
    intro store h hu
    obtain ⟨horder, hderived⟩ := hq listener List.mem_cons_self store.bench
    obtain ⟨⟨reached, answer⟩, hr⟩ : ∃ r, store.bench.react event listener = r := ⟨_, rfl⟩
    rw [hr] at horder hderived
    rw [Workbench.hearing, hr]
    cases answer with
    | error fault =>
      have hhear : (hear event listener).run store = .error fault (store.record reached []) := by
        show hear event listener store = _
        rw [hear, hr]
        rfl
      exact run_bind_error (run_bind_error hhear)
    | ok answers =>
      have hhear : (hear event listener).run store = .ok answers (store.record reached []) := by
        show hear event listener store = _
        rw [hear, hr]
        rfl
      have hw : (store.record reached []).Wired := h.record _ _ horder
      -- the answers of one listener are published before the next one hears the event
      have hone : (do (← hear event listener).forM (putWithin (depth + 1)) : StoreM Unit).run store
          = .ok () (store.record (reached.takeAll answers) answers) := by
        rw [run_bind_ok hhear, forM_derived depth (hderived answers rfl) hw hu, record_record]
        rfl
      have hrest := ih (fun l hl => hq l (List.mem_cons_of_mem _ hl))
        (h.record (reached.takeAll answers) answers horder) hu
      refine (run_bind_ok hone).trans (hrest.trans ?_)
      show afterHearing _ ((reached.takeAll answers).hearing event rest) = _
      dsimp only
      obtain ⟨⟨last, more, fault⟩, hmore⟩ :
          ∃ r, (reached.takeAll answers).hearing event rest = r := ⟨_, rfl⟩
      rw [hmore]
      cases fault with
      | none => rw [afterHearing, record_record]; rfl
      | some fault => rw [afterHearing, record_record]; rfl

theorem quiet_of_silent {listener : Listener} (h : ∀ bench : Workbench,
    (bench.react event listener).1.order = bench.order ∧ (bench.react event listener).2 = .ok []) :
    Quiet event listener := by
  intro bench
  obtain ⟨horder, hsilent⟩ := h bench
  refine ⟨horder, fun events hevents => ?_⟩
  rw [hsilent] at hevents
  obtain rfl := Except.ok.inj hevents
  exact fun e he => absurd he List.not_mem_nil

theorem quiet_of_reader {listener : Listener} (h : listener ∈ Workbench.readers) :
    Quiet .tick listener := by
  intro bench
  obtain ⟨lines, hreact⟩ := Workbench.react_reader h bench
  rw [hreact]
  exact ⟨rfl, fun events hevents => Workbench.derived_of_answerOf hevents⟩

theorem hearers_tick (h : store.Wired) :
    store.hearers .tick = .holdFrame :: Workbench.readers := by
  rw [hearers, h.listeners]
  rfl

theorem quiet_of_hearer_tick (h : store.Wired) :
    ∀ listener ∈ store.hearers .tick, Quiet .tick listener := by
  intro listener hl
  rw [hearers_tick h] at hl
  rcases List.mem_cons.mp hl with rfl | hl
  · exact quiet_of_silent fun _ => ⟨rfl, rfl⟩
  · exact quiet_of_reader hl

/-- A publication may always cause further ones. -/
theorem exists_run_put (event : Event) (store : Store) :
    ∃ depth, (put event).run store = (putWithin (depth + 1 + 1) event).run store := by
  have hpos : 0 < (store.tripwires.length + 1) * (store.listeners.length + 1) :=
    Nat.mul_pos (Nat.succ_pos _) (Nat.succ_pos _)
  obtain ⟨depth, hdepth⟩ : ∃ depth, store.depthLimit = depth + 1 + 1 :=
    ⟨store.depthLimit - 2, by rw [depthLimit]; omega⟩
  exact ⟨depth, by rw [EStateM.run, put, hdepth, EStateM.run]⟩

theorem put_unheard (h : store.Wired) {slices : Slices}
    (hr : store.bench.slices.reduce event Session.slices = (slices, none))
    (hl : store.hearers event.kind = []) :
    (put event).run store
      = .ok () (deliver event (store.record { store.bench with slices } [event])) := by
  obtain ⟨depth, hput⟩ := exists_run_put event store
  rw [hput]
  exact putWithin_unheard h (depth + 1) hr hl

/-- A TICK is followed by the answers of the listeners of a step; nothing is delivered. -/
theorem put_tick (h : store.Wired) (hu : store.Unwatched) :
    ∃ lines events, (∀ event ∈ events, event.Derived) ∧
      match store.bench.consequences with
      | .ok expected => events = expected ∧ (put .tick).run store
          = .ok () (store.record ((store.bench.hold.takeAll events).logged lines) (.tick :: events))
      | .error fault => (put .tick).run store
          = .error fault
            (store.record ((store.bench.hold.takeAll events).logged lines) (.tick :: events)) := by
  obtain ⟨lines, events, fault, hhear, hderived, hgather⟩ := store.bench.hearing_step
  obtain ⟨depth, hput⟩ := exists_run_put .tick store
  have hrun := hearAll_run depth (quiet_of_hearer_tick h) (h.record store.bench [.tick]) hu
  rw [hearers_tick h, show (store.record store.bench [.tick]).bench = store.bench from rfl, hhear,
    ← hearers_tick h] at hrun
  have hr : store.bench.slices.reduce .tick Session.slices = (store.bench.slices, none) := rfl
  refine ⟨lines, events, hderived, ?_⟩
  -- the listeners are gone through up to the first that fails, and so are the consequences
  cases fault with
  | none =>
    rw [afterHearing, record_record] at hrun
    rw [hgather]
    refine ⟨rfl, ?_⟩
    have hbench : ((store.bench.hold.takeAll events).logged lines).order = store.bench.order := rfl
    rw [hput, putWithin_ok h (depth + 1) hr hbench hrun]
    exact congrArg _ (deliver_of_not_awaits (hu _ List.mem_cons_self))
  | some fault =>
    rw [afterHearing, record_record] at hrun
    rw [hgather]
    show (put .tick).run store = _
    rw [hput]
    exact putWithin_error h (depth + 1) hr hrun

theorem hearers_closing (h : store.Wired) (bench : Workbench) :
    store.hearers bench.closing.kind = [.releaseFrame] := by
  rw [hearers, h.listeners, Workbench.closing]
  split <;> rfl

/-- The closing event of a step lets go of the frame and is delivered. -/
theorem put_closing (h : store.Wired) (hu : store.Unwatched) (bench : Workbench) :
    (put bench.closing).run store
      = .ok () (deliver bench.closing
          (store.record (store.bench.takeAll [bench.closing]).release [bench.closing])) := by
  have hr : store.bench.slices.reduce bench.closing Session.slices
      = (store.bench.slices.after [bench.closing], none) := by
    rw [Workbench.closing]
    split <;> rfl
  -- the only listener lets go of the frame and answers nothing
  have hq : ∀ listener ∈ store.hearers bench.closing.kind, Quiet bench.closing listener := by
    intro listener hl
    rw [hearers_closing h] at hl
    obtain rfl := List.mem_singleton.mp hl
    exact quiet_of_silent fun _ => ⟨rfl, rfl⟩
  obtain ⟨depth, hput⟩ := exists_run_put bench.closing store
  have hrun := hearAll_run depth hq
    (h.record (store.bench.takeAll [bench.closing]) [bench.closing]) hu
  rw [hearers_closing h] at hrun
  rw [hput]
  have hbench : (store.bench.takeAll [bench.closing]).release.order = store.bench.order := rfl
  refine putWithin_ok h (depth + 1) hr hbench ?_
  rw [hearers_closing h]
  exact hrun

/-- Apart from a line in the log, an advance is a TICK, if a step remains, and the closing event. -/
theorem run_advanceTrace (hl : store.bench.recording.loaded = true) :
    ∃ lines, advanceTrace.run store
      = (if 0 < store.bench.recording.remaining then put .tick >>= fun _ => put store.bench.closing
          else put store.bench.closing).run (store.record (store.bench.logged lines) []) := by
  let recording := store.bench.recording
  let message := s!"remaining: {recording.remaining} of {recording.steps.length}"
  refine ⟨(store.bench.log LogLevel.debug "trace" message).lines, ?_⟩
  rw [advanceTrace, run_get_bind]
  dsimp only
  rw [if_pos hl, run_modify_bind]
  split <;> rfl

/-- A step whose consequences can be found is processed; only its closing event is delivered. -/
theorem advanceTrace_ok (h : store.Wired) (hu : store.Unwatched)
    (hl : store.bench.recording.loaded = true) {events : List Event}
    (hp : store.bench.passage = .ok events) :
    ∃ lines, advanceTrace.run store
      = .ok () (deliver store.bench.closing
          (store.record ((store.bench.takeAll events).release.logged lines) events)) := by
  -- the line that the engine logs first changes the workbench, but nothing that is read of it
  obtain ⟨lines, hrun⟩ := run_advanceTrace hl
  have hw : (store.record (store.bench.logged lines) []).Wired := h.record _ _
  rw [hrun]
  rw [Workbench.passage] at hp
  split at hp
  case isTrue hr =>
    obtain ⟨found, hfound, rfl⟩ := exists_of_map_eq_ok hp
    obtain ⟨lines', events, hderived, hput⟩ := put_tick hw hu
    have hfound' : (store.record (store.bench.logged lines) []).bench.consequences
        = .ok found := hfound
    rw [hfound'] at hput
    obtain ⟨rfl, hput⟩ := hput
    rw [if_pos hr, run_bind_ok hput, record_record, put_closing (h.record _ _) hu, record_record]
    refine ⟨lines', congrArg _ (congrArg _ ?_)⟩
    have hbench : store.bench.takeAll (.tick :: events ++ [store.bench.closing])
        = (store.bench.takeAll events).takeAll [store.bench.closing] :=
      store.bench.takeAll_append events [store.bench.closing]
    rw [hbench]
    rfl
  case isFalse hr =>
    obtain rfl := Except.ok.inj hp
    have hclosing : store.bench.closing = .endOfTrace :=
      if_neg fun h1 => hr (Nat.lt_trans Nat.zero_lt_one h1)
    refine ⟨lines, ?_⟩
    rw [if_neg hr, put_closing hw hu, record_record, hclosing]
    rfl

/-- Otherwise the fault is raised, and neither the cursor moves nor is anything delivered. -/
theorem advanceTrace_error (h : store.Wired) (hu : store.Unwatched)
    (hl : store.bench.recording.loaded = true) {fault : Fault}
    (hp : store.bench.passage = .error fault) :
    ∃ lines events, (∀ event ∈ events, event.Derived) ∧ advanceTrace.run store
      = .error fault
          (store.record ((store.bench.hold.takeAll events).logged lines) (.tick :: events)) := by
  obtain ⟨lines, hrun⟩ := run_advanceTrace hl
  have hw : (store.record (store.bench.logged lines) []).Wired := h.record _ _
  rw [hrun]
  rw [Workbench.passage] at hp
  split at hp
  case isTrue hr =>
    have hfound : store.bench.consequences = .error fault := eq_error_of_map hp
    obtain ⟨lines', events, hderived, hput⟩ := put_tick hw hu
    have hfound' : (store.record (store.bench.logged lines) []).bench.consequences
        = .error fault := hfound
    rw [hfound'] at hput
    refine ⟨lines', events, hderived, ?_⟩
    rw [if_pos hr, run_bind_error hput, record_record]
    rfl
  case isFalse hr => cases hp

end Store

end TraceDebugger
