/-
What publications keep, whether they fail or not.

A publication may fail half-way, and what was done before stays.  So what is to hold after every
publication must be kept by each of the changes it is made of.

* `Workbench.retains_reduce`, `Workbench.react_session` — slices and listeners leave the command
  that runs and the trace that is loaded alone, and listeners answer only with what follows from a
  step;
* `Upholds.bind`, `upholds_forM` — what changes keep one after the other;
* `Lasting.putWithin_cases` — what the parts of a publication keep holds until the event is
  delivered;
* `Lasting.put`, `Lasting.advanceTrace` — and after all publications;
* `Waits.deliver`, `Waits.deliver_other`, `Got.deliver` — who gets an event, and who keeps what it
  has got.
-/
import TraceDebugger.Proofs.Store.Tripwires

namespace TraceDebugger

/-! ### The workbench -/

namespace Workbench

variable {bench next : Workbench} {event : Event}

/-- The same command runs in a later workbench, and a trace that was loaded still is. -/
structure Retains (bench next : Workbench) : Prop where
  active : next.active = bench.active
  loaded : bench.recording.loaded = true → next.recording.loaded = true

theorem Retains.refl (bench : Workbench) : bench.Retains bench := ⟨rfl, id⟩

theorem Retains.of_recording (ha : next.active = bench.active)
    (hr : next.recording = bench.recording) : bench.Retains next :=
  ⟨ha, fun hl => hr ▸ hl⟩

theorem loaded_reduce_recording {recording recording' : Recording}
    (h : recording.reduce event = .ok recording') (hl : recording.loaded = true) :
    recording'.loaded = true := by
  rw [Recording.reduce] at h
  split at h
  · obtain ⟨steps, -, rfl⟩ := exists_of_map_eq_ok h
    rfl
  · obtain ⟨addresses, -, rfl⟩ := exists_of_map_eq_ok h
    exact hl
  · obtain rfl := Except.ok.inj h
    rw [Recording.forward]
    split <;> exact hl
  · obtain rfl := Except.ok.inj h
    exact hl
  · obtain rfl := Except.ok.inj h
    exact hl

/-- No event unloads a trace. -/
theorem loaded_reduceOne {slices : Slices} (hl : slices.recording.loaded = true)
    (name : SliceName) : (slices.reduceOne event name).1.recording.loaded = true := by
  cases name with
  | recording =>
    rw [Slices.reduceOne]
    cases hr : slices.recording.reduce event with
    | ok recording => exact loaded_reduce_recording hr hl
    | error fault => exact hl
  | callStack =>
    rw [Slices.reduceOne]
    cases slices.callStack.reduce event <;> exact hl
  | bindings => exact hl
  | functionDepth =>
    rw [Slices.reduceOne]
    cases slices.functionDepth.reduce event <;> exact hl

theorem loaded_reduce (order : List SliceName) : ∀ {slices : Slices},
    slices.recording.loaded = true → (slices.reduce event order).1.recording.loaded = true := by
  induction order with
  | nil => exact fun hl => hl
  | cons name rest ih =>
    intro slices hl
    have hone : (slices.reduceOne event name).1.recording.loaded = true :=
      loaded_reduceOne hl name
    rw [Slices.reduce]
    split
    · rename_i reduced hreduced
      rw [hreduced] at hone
      exact ih hone
    · rename_i reduced fault hreduced
      rw [hreduced] at hone
      exact hone

/-- The slices take an event. -/
theorem retains_reduce (event : Event) (bench : Workbench) :
    bench.Retains (bench.reduce event).1 :=
  ⟨rfl, fun hl => loaded_reduce bench.order hl⟩

/-- A listener of a session leaves the trace alone and answers with what follows from a step. -/
theorem react_session {listener : Listener} (hl : listener ∈ Session.listeners) :
    bench.Retains (bench.react event listener).1 ∧
      ∀ events, (bench.react event listener).2 = .ok events → ∀ e ∈ events, e.Derived := by
  have hsilent : ∀ events, (.ok [] : Except Fault (List Event)) = .ok events →
      ∀ e ∈ events, e.Derived := by
    intro events hevents e he
    obtain rfl := Except.ok.inj hevents
    cases he
  -- what is caused are jumps, frames and bindings, and none of these is a step
  cases listener with
  | holdFrame => exact ⟨.of_recording rfl rfl, hsilent⟩
  | releaseFrame => exact ⟨.of_recording rfl rfl, hsilent⟩
  | followJumps => exact ⟨.refl bench, fun events he => derived_of_jumpEvents he⟩
  | trackCalls =>
    obtain ⟨lines, htrack⟩ := bench.trackCalls_eq
    rw [react, htrack]
    exact ⟨.of_recording rfl rfl, fun events he => derived_of_frameEvents he⟩
  | bindVariables =>
    obtain ⟨lines, hbind⟩ := bench.bindVariables_eq
    rw [react, hbind]
    exact ⟨.of_recording rfl rfl, fun events he => derived_of_bindingEvents he⟩
  | reportBusy =>
    refine ⟨?_, hsilent⟩
    show bench.Retains (bench.reportBusy event)
    rw [reportBusy]
    split
    · exact .of_recording rfl rfl
    · exact .refl bench
  | relay => simp [Session.listeners] at hl

end Workbench

namespace Store

/-! ### Changes in a row -/

section

variable {α β : Type} {invariant : Store → Prop} {fit : α → Prop} {fit' : β → Prop}

/-- A change keeps something of a store, whether it fails or not, and returns only what is fit. -/
def Upholds (invariant : Store → Prop) (fit : α → Prop) (change : StoreM α) : Prop :=
  ∀ store, invariant store →
    (∃ a last, change store = .ok a last ∧ invariant last ∧ fit a) ∨
      ∃ fault last, change store = .error fault last ∧ invariant last

theorem upholds_throw (fault : Fault) :
    Upholds invariant fit (throw fault : StoreM α) := fun store h => .inr ⟨fault, store, rfl, h⟩

theorem upholds_modify {change : Store → Store} (hc : ∀ store, invariant store →
    invariant (change store)) : Upholds invariant (fun _ => True) (modify change : StoreM PUnit) :=
  fun store h => .inl ⟨⟨⟩, change store, rfl, hc store h, trivial⟩

theorem Upholds.bind {change : StoreM α} {next : α → StoreM β} (h : Upholds invariant fit change)
    (hn : ∀ a, fit a → Upholds invariant fit' (next a)) :
    Upholds invariant fit' (change >>= next) := by
  intro store hi
  obtain ⟨a, last, hc, hlast, ha⟩ | ⟨fault, last, hc, hlast⟩ := h store hi
  · have hrun : (change >>= next) store = next a last := run_bind_ok hc
    rw [hrun]
    exact hn a ha last hlast
  · exact .inr ⟨fault, last, run_bind_error hc, hlast⟩

/-- What follows may look at the store. -/
theorem upholds_get {next : Store → StoreM β}
    (hn : ∀ store, invariant store → Upholds invariant fit' (next store)) :
    Upholds invariant fit' (get >>= next) :=
  fun store hi => hn store hi store hi

theorem upholds_forM {act : α → StoreM Unit} {l : List α}
    (h : ∀ a ∈ l, Upholds invariant (fun _ => True) (act a)) :
    Upholds invariant (fun _ => True) (l.forM act) := by
  induction l with
  | nil => exact fun store hi => .inl ⟨(), store, rfl, hi, trivial⟩
  | cons a rest ih =>
    exact (h a List.mem_cons_self).bind fun _ _ => ih fun b hb => h b (List.mem_cons_of_mem a hb)

end

/-! ### Publications -/

/-- Something that all parts of publications keep, as long as only good events are published. -/
structure Lasting (good : Event → Prop) (invariant : Store → Prop) : Prop where
  derived : ∀ {event}, Event.Derived event → good event
  listeners : ∀ {store}, invariant store → store.listeners = Session.listeners
  wires : ∀ {store}, invariant store → ∀ wire ∈ store.tripwires, good wire.event
  note : ∀ {store event}, good event → invariant store → invariant (store.note event)
  bench : ∀ {store : Store} {bench : Workbench}, store.bench.Retains bench → invariant store →
    invariant { store with bench }
  unwire : ∀ {store ticket}, invariant store → invariant (store.removeWire ticket)
  deliver : ∀ {store event}, good event → invariant store → invariant (store.deliver event)

namespace Lasting

variable {good : Event → Prop} {invariant : Store → Prop}

theorem takeIn (h : Lasting good invariant) (event : Event) :
    Upholds invariant (fun _ => True) (takeIn event) := by
  intro store hi
  have hretains := Workbench.retains_reduce event store.bench
  obtain ⟨⟨bench, fault⟩, hreduce⟩ : ∃ reduced, store.bench.reduce event = reduced := ⟨_, rfl⟩
  rw [hreduce] at hretains
  rw [Store.takeIn, hreduce]
  cases fault with
  | none => exact .inl ⟨(), _, rfl, h.bench hretains hi, trivial⟩
  | some fault => exact .inr ⟨fault, _, rfl, h.bench hretains hi⟩

theorem hear (h : Lasting good invariant) (event : Event) {listener : Listener}
    (hl : listener ∈ Session.listeners) :
    Upholds invariant (fun events => ∀ e ∈ events, good e) (hear event listener) := by
  intro store hi
  obtain ⟨⟨bench, answer⟩, hreact⟩ : ∃ reaction, store.bench.react event listener = reaction :=
    ⟨_, rfl⟩
  have hsession : store.bench.Retains (store.bench.react event listener).1 ∧
      ∀ events, (store.bench.react event listener).2 = .ok events → ∀ e ∈ events, e.Derived :=
    Workbench.react_session hl
  rw [hreact] at hsession
  obtain ⟨hretains, hderived⟩ := hsession
  rw [Store.hear, hreact]
  cases answer with
  | ok events =>
    exact .inl ⟨events, _, rfl, h.bench hretains hi, fun e he => h.derived (hderived _ rfl e he)⟩
  | error fault => exact .inr ⟨fault, _, rfl, h.bench hretains hi⟩

theorem trip (h : Lasting good invariant) (event : Event) {wire : Tripwire}
    (hw : good wire.event) :
    Upholds invariant (fun events => ∀ e ∈ events, good e) (trip event wire) := by
  intro store hi
  rw [Store.trip]
  split
  · refine .inl ⟨_, _, rfl, h.unwire hi, fun e he => ?_⟩
    obtain rfl := List.mem_singleton.mp he
    exact hw
  · exact .inl ⟨[], store, rfl, hi, fun e he => by cases he⟩

/-- What the parts of a publication keep holds until the event is delivered. -/
theorem putWithin_cases (h : Lasting good invariant) {depth : Nat}
    (hput : ∀ event, good event → Upholds invariant (fun _ => True) (putWithin depth event))
    {event : Event} {store : Store} (hi : invariant (store.note event)) :
    (∃ after, putWithin (depth + 1) event store = .ok () (after.deliver event) ∧ invariant after) ∨
      ∃ fault last, putWithin (depth + 1) event store = .error fault last ∧ invariant last := by
  have hanswers {α : Type} {answer : α → StoreM (List Event)} {a : α}
      (ha : Upholds invariant (fun events => ∀ e ∈ events, good e) (answer a)) :
      Upholds invariant (fun _ => True) (do (← answer a).forM (putWithin depth)) :=
    ha.bind fun events hgood => upholds_forM fun e he => hput e (hgood e he)
  -- all that is done before the event is delivered
  let inner : StoreM Unit := do
    Store.takeIn event
    (hearers event.kind (← get)).forM fun listener => do
      (← Store.hear event listener).forM (putWithin depth)
    (← get).tripwires.forM fun wire => do
      (← Store.trip event wire).forM (putWithin depth)
  have hinner : Upholds invariant (fun _ => True) inner := by
    refine (h.takeIn event).bind fun _ _ => upholds_get fun reduced hreduced => ?_
    refine (upholds_forM fun listener hl => hanswers (h.hear event ?_)).bind fun _ _ =>
      upholds_get fun heard hheard => upholds_forM fun wire hw =>
        hanswers (h.trip event (h.wires hheard wire hw))
    -- the listeners are still those of a session
    rw [hearers, h.listeners hreduced] at hl
    obtain ⟨found, hfound, hl⟩ := List.mem_flatMap.mp hl
    rwa [List.eq_of_mem_replicate hl]
  have heq : putWithin (depth + 1) event store
      = (inner >>= fun _ => modify (Store.deliver event)) (store.note event) := by
    simp only [putWithin, inner, bind_assoc]
    rfl
  rw [heq]
  obtain ⟨a, after, hrun, hafter, -⟩ | ⟨fault, last, hrun, hlast⟩ := hinner _ hi
  · exact .inl ⟨after, run_bind_ok hrun, hafter⟩
  · exact .inr ⟨fault, last, run_bind_error hrun, hlast⟩

theorem putWithin (h : Lasting good invariant) (depth : Nat) :
    ∀ event, good event → Upholds invariant (fun _ => True) (putWithin depth event) := by
  induction depth with
  | zero => exact fun event _ => upholds_throw (.unfit .endless)
  | succ depth ih =>
    -- what an event causes is published one level deeper
    intro event hg store hi
    obtain ⟨after, hput, hafter⟩ | ⟨fault, last, hput, hlast⟩ :=
      h.putWithin_cases ih (h.note hg hi)
    · exact .inl ⟨(), _, hput, h.deliver hg hafter, trivial⟩
    · exact .inr ⟨fault, last, hput, hlast⟩

/-- A publication that is not itself a good one, as long as all that it causes are. -/
theorem put_cases (h : Lasting good invariant) {event : Event} {store : Store}
    (hi : invariant (store.note event)) :
    (∃ after, put event store = .ok () (after.deliver event) ∧ invariant after) ∨
      ∃ fault last, put event store = .error fault last ∧ invariant last :=
  h.putWithin_cases (h.putWithin _) hi

theorem put (h : Lasting good invariant) {event : Event} (hg : good event) :
    Upholds invariant (fun _ => True) (put event) :=
  fun store hi => h.putWithin store.depthLimit event hg store hi

/-- The engine processes a step. -/
theorem advanceTrace (h : Lasting good invariant)
    (hl : ∀ {store}, invariant store → store.bench.recording.loaded = true) (htick : good .tick)
    (hclosing : ∀ bench : Workbench, good bench.closing) :
    Upholds invariant (fun _ => True) advanceTrace := by
  intro store hi
  rw [advanceTrace_eq (hl hi)]
  have hrest : Upholds invariant (fun _ => True)
      (if 0 < store.bench.recording.remaining then
        Store.put .tick >>= fun _ => Store.put store.bench.closing
      else Store.put store.bench.closing) := by
    split
    · exact (h.put htick).bind fun _ _ => h.put (hclosing _)
    · exact h.put (hclosing _)
  have hannounced (store : Store) (hi : invariant store) :
      invariant { store with bench := store.bench.announced } :=
    h.bench (.of_recording rfl rfl) hi
  exact (upholds_modify hannounced).bind (fun _ _ => hrest) store hi

end Lasting

/-! ### Those who wait -/

variable {store next : Store} {event : Event} {ticket : Ticket} {kinds : List EventKind}

/-- The tickets in use have been given out. -/
structure Fresh (store : Store) : Prop where
  takers : ∀ taker ∈ store.takers, taker.ticket < store.nextTicket
  outcomes : ∀ outcome ∈ store.outcomes, outcome.1 < store.nextTicket
  notices : ∀ ticket, .taken ticket ∈ store.notices → ticket < store.nextTicket

/-- Somebody waits with a ticket for events of some kinds and has not been told of any. -/
structure Waits (store : Store) (ticket : Ticket) (kinds : List EventKind) : Prop where
  mem : ⟨ticket, kinds⟩ ∈ store.takers
  only : ∀ taker ∈ store.takers, taker.ticket = ticket → taker.kinds = kinds
  untold : .taken ticket ∉ store.notices

/-- Somebody has got an event with a ticket. -/
structure Got (store : Store) (ticket : Ticket) (event : Event) : Prop where
  lt : ticket < store.nextTicket
  gone : ∀ taker ∈ store.takers, taker.ticket ≠ ticket
  got : store.outcome? ticket = some event

/-- Nobody waits with a ticket for the end of a command. -/
structure Aloof (store : Store) (ticket : Ticket) : Prop where
  lt : ticket < store.nextTicket
  other : ∀ taker ∈ store.takers, taker.ticket = ticket → .endStep ∉ taker.kinds

/-- Whoever waits goes on waiting, and whoever has got something keeps it. -/
structure Spares (store next : Store) : Prop where
  fresh : next.Fresh
  waits : ∀ {ticket kinds}, store.Waits ticket kinds → next.Waits ticket kinds
  got : ∀ {ticket event}, store.Got ticket event → next.Got ticket event
  aloof : ∀ {ticket}, store.Aloof ticket → next.Aloof ticket
  notices : next.notices = store.notices
  outcomes : next.outcomes = store.outcomes

theorem Spares.outcome? (h : store.Spares next) (ticket : Ticket) :
    next.outcome? ticket = store.outcome? ticket := by
  rw [Store.outcome?, Store.outcome?, h.outcomes]

theorem Spares.trans {middle : Store} (h : store.Spares middle) (h' : middle.Spares next) :
    store.Spares next where
  fresh := h'.fresh
  waits := fun hw => h'.waits (h.waits hw)
  got := fun hg => h'.got (h.got hg)
  aloof := fun ha => h'.aloof (h.aloof ha)
  notices := h'.notices.trans h.notices
  outcomes := h'.outcomes.trans h.outcomes

/-- So it is when nobody begins or ceases to wait. -/
theorem Fresh.spares (h : store.Fresh) (ht : next.takers = store.takers)
    (ho : next.outcomes = store.outcomes) (hn : next.notices = store.notices)
    (hle : store.nextTicket ≤ next.nextTicket) : store.Spares next := by
  refine ⟨⟨fun taker hm => ?_, fun outcome hm => ?_, fun ticket hm => ?_⟩, fun hw => ?_,
    fun hg => ?_, fun ha => ⟨Nat.lt_of_lt_of_le ha.lt hle, ht ▸ ha.other⟩, hn, ho⟩
  · exact Nat.lt_of_lt_of_le (h.takers taker (ht ▸ hm)) hle
  · exact Nat.lt_of_lt_of_le (h.outcomes outcome (ho ▸ hm)) hle
  · exact Nat.lt_of_lt_of_le (h.notices ticket (hn ▸ hm)) hle
  · exact ⟨ht ▸ hw.mem, ht ▸ hw.only, hn ▸ hw.untold⟩
  · refine ⟨Nat.lt_of_lt_of_le hg.lt hle, ht ▸ hg.gone, ?_⟩
    rw [outcome?, ho]
    exact hg.got

theorem Spares.refl (h : store.Fresh) : store.Spares store :=
  h.spares rfl rfl rfl (Nat.le_refl _)

/-! ### One more who waits, and one less -/

/-- Whoever begins to wait has been told nothing. -/
theorem Fresh.waits_take (h : store.Fresh) (kinds : List EventKind) :
    (store.take kinds).2.Waits store.nextTicket kinds := by
  refine ⟨List.mem_append_right _ List.mem_cons_self, fun taker ht heq => ?_,
    fun hn => Nat.lt_irrefl _ (h.notices _ hn)⟩
  rcases List.mem_append.mp ht with ht | ht
  · exact absurd heq (Nat.ne_of_lt (h.takers taker ht))
  · obtain rfl := List.mem_singleton.mp ht
    rfl

/-- It has got nothing either. -/
theorem Fresh.outcome?_nextTicket (h : store.Fresh) : store.outcome? store.nextTicket = none := by
  rw [outcome?, SyntaxTree.valueOf?, Option.map_eq_none_iff, List.find?_eq_none]
  intro outcome ho
  rw [decide_eq_true_iff]
  exact Nat.ne_of_lt (h.outcomes outcome ho)

/-- Nobody else has the new ticket. -/
theorem Fresh.spares_take (h : store.Fresh) (kinds : List EventKind) :
    store.Spares (store.take kinds).2 := by
  -- the new taker has the next ticket, which is above all that have been given out
  have htakers {taker : Taker} (ht : taker ∈ (store.take kinds).2.takers) :
      taker ∈ store.takers ∨ taker.ticket = store.nextTicket := by
    rcases List.mem_append.mp ht with ht | ht
    · exact .inl ht
    · obtain rfl := List.mem_singleton.mp ht
      exact .inr rfl
  refine ⟨⟨fun taker ht => ?_, fun outcome ho => Nat.lt_succ_of_lt (h.outcomes outcome ho),
    fun ticket hn => Nat.lt_succ_of_lt (h.notices ticket hn)⟩, fun hw => ?_, fun hg => ?_,
    fun ha => ⟨Nat.lt_succ_of_lt ha.lt, fun taker ht heq => ?_⟩, rfl, rfl⟩
  · rcases htakers ht with ht | ht
    · exact Nat.lt_succ_of_lt (h.takers taker ht)
    · exact ht ▸ Nat.lt_succ_self _
  · refine ⟨List.mem_append_left _ hw.mem, fun taker ht heq => ?_, hw.untold⟩
    rcases htakers ht with ht | ht
    · exact hw.only taker ht heq
    · exact absurd (heq.symm.trans ht) (Nat.ne_of_lt (h.takers _ hw.mem))
  · refine ⟨Nat.lt_succ_of_lt hg.lt, fun taker ht heq => ?_, hg.got⟩
    rcases htakers ht with ht | ht
    · exact hg.gone taker ht heq
    · exact absurd (heq.symm.trans ht) (Nat.ne_of_lt hg.lt)
  · rcases htakers ht with ht | ht
    · exact ha.other taker ht heq
    · exact absurd (heq.symm.trans ht) (Nat.ne_of_lt ha.lt)

/-- Whoever begins to wait for something else is aloof. -/
theorem Fresh.aloof_take (h : store.Fresh) (hk : .endStep ∉ kinds) :
    (store.take kinds).2.Aloof store.nextTicket :=
  ⟨Nat.lt_succ_self _, fun taker ht heq => (h.waits_take kinds).only taker ht heq ▸ hk⟩

/-- Whoever waits for the end of a command is not aloof. -/
theorem Waits.ne_of_aloof (h : store.Waits ticket kinds) (hk : .endStep ∈ kinds) {other : Ticket}
    (ha : store.Aloof other) : ticket ≠ other := by
  rintro rfl
  exact ha.other _ h.mem rfl hk

theorem Fresh.cancel (h : store.Fresh) (other : Ticket) : (store.cancel other).Fresh :=
  ⟨fun taker ht => h.takers taker (List.mem_of_mem_filter ht), h.outcomes, h.notices⟩

theorem Waits.cancel (h : store.Waits ticket kinds) {other : Ticket} (hne : ticket ≠ other) :
    (store.cancel other).Waits ticket kinds :=
  ⟨List.mem_filter.mpr ⟨h.mem, by simpa using hne⟩,
    fun taker ht => h.only taker (List.mem_of_mem_filter ht), h.untold⟩

theorem Got.cancel (h : store.Got ticket event) (other : Ticket) :
    (store.cancel other).Got ticket event :=
  ⟨h.lt, fun taker ht => h.gone taker (List.mem_of_mem_filter ht), h.got⟩

theorem Aloof.cancel (h : store.Aloof ticket) (other : Ticket) :
    (store.cancel other).Aloof ticket :=
  ⟨h.lt, fun taker ht => h.other taker (List.mem_of_mem_filter ht)⟩

/-! ### Deliveries -/

/-- What somebody has got is not changed by an event that others wait for. -/
theorem outcome?_deliver
    (h : ∀ taker ∈ store.takers, event.kind ∈ taker.kinds → taker.ticket ≠ ticket) :
    (store.deliver event).outcome? ticket = store.outcome? ticket := by
  have hnone : ((store.takers.filter fun taker => taker.kinds.contains event.kind).map
      fun taker => (taker.ticket, event)).reverse.find? (fun entry => entry.1 = ticket) = none := by
    rw [List.find?_eq_none]
    intro entry he
    obtain ⟨taker, htaker, rfl⟩ := List.mem_map.mp (List.mem_reverse.mp he)
    obtain ⟨hmem, hk⟩ := List.mem_filter.mp htaker
    simpa using h taker hmem (List.contains_iff_mem.mp hk)
  rw [outcome?, outcome?, SyntaxTree.valueOf?, Store.deliver, List.find?_append, hnone]
  rfl

theorem mem_notices_deliver : .taken ticket ∈ (store.deliver event).notices ↔
    .taken ticket ∈ store.notices ∨
      ∃ taker ∈ store.takers, event.kind ∈ taker.kinds ∧ taker.ticket = ticket := by
  simp [deliver, and_assoc]

theorem Fresh.deliver (h : store.Fresh) (event : Event) : (store.deliver event).Fresh := by
  refine ⟨fun taker ht => h.takers taker (List.mem_of_mem_filter ht), fun outcome ho => ?_,
    fun ticket hn => ?_⟩
  · rcases List.mem_append.mp ho with ho | ho
    · obtain ⟨taker, ht, rfl⟩ := List.mem_map.mp (List.mem_reverse.mp ho)
      exact h.takers taker (List.mem_of_mem_filter ht)
    · exact h.outcomes outcome ho
  · obtain hn | ⟨taker, ht, -, rfl⟩ := mem_notices_deliver.mp hn
    · exact h.notices ticket hn
    · exact h.takers taker ht

/-- Whoever waits for other events goes on waiting. -/
theorem Waits.deliver_other (h : store.Waits ticket kinds) (hk : event.kind ∉ kinds) :
    (store.deliver event).Waits ticket kinds := by
  refine ⟨List.mem_filter.mpr ⟨h.mem, by simpa using hk⟩,
    fun taker ht => h.only taker (List.mem_of_mem_filter ht), fun hn => ?_⟩
  obtain hn | ⟨taker, ht, hkind, heq⟩ := mem_notices_deliver.mp hn
  · exact h.untold hn
  · exact hk (h.only taker ht heq ▸ hkind)

theorem Waits.outcome?_deliver_other (h : store.Waits ticket kinds) (hk : event.kind ∉ kinds) :
    (store.deliver event).outcome? ticket = store.outcome? ticket :=
  outcome?_deliver fun taker ht hkind heq => hk (h.only taker ht heq ▸ hkind)

/-- Whoever waits for an event gets it and is to be told. -/
theorem Waits.deliver (h : store.Waits ticket kinds) (hf : store.Fresh) (hk : event.kind ∈ kinds) :
    (store.deliver event).Got ticket event ∧ .taken ticket ∈ (store.deliver event).notices := by
  refine ⟨⟨hf.takers _ h.mem, fun taker ht heq => ?_, ?_⟩,
    mem_notices_deliver.mpr (.inr ⟨_, h.mem, hk, rfl⟩)⟩
  · obtain ⟨hmem, hleft⟩ := List.mem_filter.mp ht
    rw [h.only taker hmem heq] at hleft
    simp [hk] at hleft
  · -- whatever is entered for the ticket now is the event
    let entries := (store.takers.filter fun taker => taker.kinds.contains event.kind).map
      fun taker => (taker.ticket, event)
    have hheard : ⟨ticket, kinds⟩ ∈ store.takers.filter
        fun taker => taker.kinds.contains event.kind :=
      List.mem_filter.mpr ⟨h.mem, by simpa using hk⟩
    have hentry : (ticket, event) ∈ entries.reverse :=
      List.mem_reverse.mpr (List.mem_map.mpr ⟨_, hheard, rfl⟩)
    obtain ⟨entry, hfound⟩ := Option.isSome_iff_exists.mp (List.find?_isSome
      (p := fun entry => decide (entry.1 = ticket)) |>.mpr ⟨_, hentry, by simp⟩)
    have hmem : entry ∈ entries := List.mem_reverse.mp (List.mem_of_find?_eq_some hfound)
    obtain ⟨taker, -, rfl⟩ := List.mem_map.mp hmem
    show (SyntaxTree.valueOf? ticket (entries.reverse ++ store.outcomes)) = some event
    rw [SyntaxTree.valueOf?, List.find?_append, hfound]
    rfl

theorem Got.deliver (h : store.Got ticket event) (other : Event) :
    (store.deliver other).Got ticket event := by
  refine ⟨h.lt, fun taker ht => h.gone taker (List.mem_of_mem_filter ht), ?_⟩
  rw [outcome?_deliver fun taker ht _ => h.gone taker ht]
  exact h.got

theorem Aloof.deliver (h : store.Aloof ticket) (event : Event) :
    (store.deliver event).Aloof ticket :=
  ⟨h.lt, fun taker ht => h.other taker (List.mem_of_mem_filter ht)⟩

/-- Whoever has got something is not told of it again. -/
theorem Got.untold_deliver (h : store.Got ticket event) (hn : .taken ticket ∉ store.notices)
    (other : Event) : .taken ticket ∉ (store.deliver other).notices := by
  intro hmem
  obtain hmem | ⟨taker, ht, -, heq⟩ := mem_notices_deliver.mp hmem
  · exact hn hmem
  · exact h.gone taker ht heq

end Store

end TraceDebugger
