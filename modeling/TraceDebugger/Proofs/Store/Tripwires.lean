/-
Interrupts that are published inside other publications.

A listener that publishes an interrupt is a tripwire: it hears an event after the listeners of the
session have, and it may be set off by every event that is published while a step is processed, at
whatever depth.  Wherever that happens, it makes no difference but that the interrupt has been
delivered before: a store with such tripwires (`armedBy`) goes the way of a store without any to
which an interrupt was delivered first (`interruptIf`).

* `putWithin_interrupt` — an interrupt sets off other tripwires, and all of them are one interrupt;
* `publishesUnder_put` — so it is with the interrupts inside a publication;
* `publishesUnder_advanceTrace` — and with those inside the processing of a step.
-/
import TraceDebugger.Proofs.Store.Depth

namespace TraceDebugger

/-- The events other than interrupts. -/
def withoutInterrupts (events : List Event) : List Event :=
  events.filter fun event => event.kind ≠ .interrupt

theorem withoutInterrupts_append (first second : List Event) :
    withoutInterrupts (first ++ second) = withoutInterrupts first ++ withoutInterrupts second :=
  List.filter_append ..

/-- What tripwires and their interrupts make of a store. -/
structure Arming where
  /-- The tripwires that are left. -/
  wires : List Tripwire
  /-- What has been published with the interrupts, newest first. -/
  published : List Event
  /-- An interrupt has been delivered. -/
  delivered : Bool := false

namespace Arming

variable {arming middle after : Arming} {store : Store}

def note (event : Event) (arming : Arming) : Arming :=
  { arming with published := event :: arming.published }

/-- An arming suits a store if its tripwires publish interrupts only, and if apart from interrupts
the same has been published. -/
structure Suits (arming : Arming) (store : Store) : Prop where
  interrupts : ∀ wire ∈ arming.wires, wire.event = .interrupt
  published : withoutInterrupts arming.published = withoutInterrupts store.published

/-- What becomes of an arming: tripwires are used up, and the first interrupt costs one of them. -/
structure Precedes (arming after : Arming) : Prop where
  sublist : after.wires.Sublist arming.wires
  grows : arming.published <:+ after.published
  delivered : arming.delivered = true → after.delivered = true
  spent : after.delivered = true →
    arming.delivered = true ∨ after.wires.length < arming.wires.length

theorem Precedes.refl (arming : Arming) : arming.Precedes arming :=
  ⟨.refl _, List.suffix_refl _, id, .inl⟩

theorem Precedes.note (arming : Arming) (event : Event) : arming.Precedes (arming.note event) :=
  ⟨.refl _, List.suffix_cons _ _, id, .inl⟩

theorem Precedes.trans (h : arming.Precedes middle) (h' : middle.Precedes after) :
    arming.Precedes after := by
  refine ⟨h'.sublist.trans h.sublist, h.grows.trans h'.grows, h'.delivered ∘ h.delivered,
    fun hs => ?_⟩
  -- the first interrupt fell into one of the two halves, and costs a tripwire there
  rcases h'.spent hs with hm | hlt
  · rcases h.spent hm with hr | hlt
    · exact .inl hr
    · exact .inr (Nat.lt_of_le_of_lt h'.sublist.length_le hlt)
  · exact .inr (Nat.lt_of_lt_of_le hlt h.sublist.length_le)

end Arming

/-- The workbench after the processing of a step has been noted in the log. -/
def Workbench.announced (bench : Workbench) : Workbench :=
  bench.log LogLevel.debug "trace"
    s!"remaining: {bench.recording.remaining} of {bench.recording.steps.length}"

namespace Store

variable {store last : Store} {event : Event} {arming : Arming}

/-! ### Stores with tripwires -/

/-- The store after an interrupt has been delivered, if one has. -/
def interruptIf (delivered : Bool) (store : Store) : Store :=
  if delivered then store.deliver .interrupt else store

/-- The store with other tripwires, and with what has been published with the interrupts. -/
def withTripwires (arming : Arming) (store : Store) : Store :=
  { store with tripwires := arming.wires, published := arming.published }

def armedBy (arming : Arming) (store : Store) : Store :=
  (store.interruptIf arming.delivered).withTripwires arming

theorem armedBy_of_not_delivered (hr : arming.delivered = false) (store : Store) :
    store.armedBy arming = store.withTripwires arming := by
  rw [armedBy, hr]
  rfl

/-- The store of a session while nobody waits for what happens inside a step, and interrupts are
waited for by takers only. -/
structure OfSession (store : Store) : Prop extends store.Wired where
  unwatched : store.Unwatched
  channels : ∀ channel ∈ store.channels, EventKind.interrupt ∉ channel.kinds

theorem OfSession.record (h : store.OfSession) (bench : Workbench) (events : List Event)
    (ho : bench.order = store.bench.order := by rfl) : (store.record bench events).OfSession :=
  ⟨h.toWired.record bench events ho, h.unwatched, h.channels⟩

theorem interruptIf_record (delivered : Bool) (store : Store) (bench : Workbench)
    (events : List Event) :
    (store.record bench events).interruptIf delivered =
      (store.interruptIf delivered).record bench events := by
  cases delivered <;> rfl

theorem bench_interruptIf (delivered : Bool) (store : Store) :
    (store.interruptIf delivered).bench = store.bench := by
  cases delivered <;> rfl

/-- An arming replaces what the store itself has published. -/
theorem armedBy_record (arming : Arming) (store : Store) (events : List Event) :
    (store.record store.bench events).armedBy arming = store.armedBy arming := by
  rw [armedBy, interruptIf_record, armedBy, ← bench_interruptIf arming.delivered store]
  rfl

theorem listeners_interruptIf (delivered : Bool) (store : Store) :
    (store.interruptIf delivered).listeners = store.listeners := by
  cases delivered <;> rfl

theorem hearers_armedBy (arming : Arming) (store : Store) (kind : EventKind) :
    (store.armedBy arming).hearers kind = store.hearers kind := by
  show (store.interruptIf arming.delivered).listeners.flatMap _ = _
  rw [listeners_interruptIf]
  rfl

/-- Whoever waits after an interrupt has waited before it. -/
theorem awaits_of_interruptIf {delivered : Bool} {kind : EventKind}
    (h : (store.interruptIf delivered).Awaits kind) : store.Awaits kind := by
  cases delivered with
  | false => exact h
  | true =>
    rcases h with ⟨taker, ht, hk⟩ | ⟨channel, hc, ho, hk⟩
    · exact .inl ⟨taker, (List.mem_filter.mp ht).1, hk⟩
    · -- the delivery fills channels and opens none
      obtain ⟨before, hb, rfl⟩ := List.mem_map.mp hc
      refine .inr ⟨before, hb, ?_⟩
      split at ho <;> split at hk <;> exact ⟨ho, hk⟩

/-- An event that nobody waits for is not delivered, interrupt or not. -/
theorem deliver_interruptIf_of_not_awaits {delivered : Bool} (h : ¬ store.Awaits event.kind) :
    (store.interruptIf delivered).deliver event = store.interruptIf delivered :=
  deliver_of_not_awaits fun ha => h (awaits_of_interruptIf ha)

theorem OfSession.not_awaits_delivered (h : store.OfSession) :
    ¬ (store.interruptIf true).Awaits EventKind.interrupt := by
  rintro (⟨taker, ht, hk⟩ | ⟨channel, hc, ho, hk⟩)
  · -- a taker that is still there was passed over by the delivery
    have hleft := (List.mem_filter.mp ht).2
    rw [Bool.not_eq_true', List.contains_eq_mem, decide_eq_false_iff_not] at hleft
    exact hleft hk
  · obtain ⟨before, hb, rfl⟩ := List.mem_map.mp hc
    have hdeaf := h.channels before hb
    split at hk <;> exact hdeaf hk

/-- A second interrupt reaches nobody. -/
theorem OfSession.deliver_interrupt (h : store.OfSession) (delivered : Bool) :
    (store.interruptIf delivered).deliver .interrupt = store.interruptIf true := by
  cases delivered with
  | false => rfl
  | true => exact deliver_of_not_awaits h.not_awaits_delivered

/-! ### Actions under tripwires -/

/-- An action leads from one store to another one, and it still does if both have tripwires, so many
at most. -/
def RunsUnder (bound : Nat) (act : StoreM Unit) (store last : Store) : Prop :=
  ∀ arming : Arming, arming.Suits store → arming.wires.length ≤ bound →
    ∃ after, arming.Precedes after ∧ after.Suits last ∧
      act (store.armedBy arming) = .ok () (last.armedBy after)

/-- An action ends with the delivery of an event, and it still does in a store with tripwires.  The
interrupts that it sets off come before that delivery. -/
def PublishesUnder (bound : Nat) (act : StoreM Unit) (store last : Store) (event : Event) : Prop :=
  ∀ arming : Arming, arming.Suits store → arming.wires.length ≤ bound →
    ∃ after, arming.Precedes after ∧ after.Suits last ∧
      act (store.armedBy arming) = .ok ()
        (((last.interruptIf after.delivered).deliver event).withTripwires after)

theorem RunsUnder.refl (bound : Nat) (store : Store) : RunsUnder bound (pure ()) store store :=
  fun arming hs _ => ⟨arming, .refl _, hs, rfl⟩

theorem RunsUnder.trans {bound : Nat} {act act' : StoreM Unit} {middle : Store}
    (h : RunsUnder bound act store middle) (h' : RunsUnder bound act' middle last) :
    RunsUnder bound (act >>= fun _ => act') store last := by
  intro arming hs hb
  obtain ⟨between, hprecedes, hsuits, hact⟩ := h arming hs hb
  obtain ⟨after, hprecedes', hsuits', hact'⟩ :=
    h' between hsuits (Nat.le_trans hprecedes.sublist.length_le hb)
  exact ⟨after, hprecedes.trans hprecedes', hsuits', (run_bind_ok hact).trans hact'⟩

theorem RunsUnder.publishes {bound : Nat} {act act' : StoreM Unit} {middle : Store}
    (h : RunsUnder bound act store middle) (h' : PublishesUnder bound act' middle last event) :
    PublishesUnder bound (act >>= fun _ => act') store last event := by
  intro arming hs hb
  obtain ⟨between, hprecedes, hsuits, hact⟩ := h arming hs hb
  obtain ⟨after, hprecedes', hsuits', hact'⟩ :=
    h' between hsuits (Nat.le_trans hprecedes.sublist.length_le hb)
  exact ⟨after, hprecedes.trans hprecedes', hsuits', (run_bind_ok hact).trans hact'⟩

/-- An event that nobody waits for leaves the store as it is. -/
theorem PublishesUnder.leads {bound : Nat} {act : StoreM Unit}
    (h : PublishesUnder bound act store last event) (ha : ¬ last.Awaits event.kind) :
    RunsUnder bound act store last := by
  intro arming hs hb
  obtain ⟨after, hprecedes, hsuits, hact⟩ := h arming hs hb
  rw [deliver_interruptIf_of_not_awaits ha] at hact
  exact ⟨after, hprecedes, hsuits, hact⟩

/-- Without tripwires the action delivers the event in the store as it is. -/
theorem PublishesUnder.plain {act : StoreM Unit}
    (h : PublishesUnder 0 act store last event) (ht : store.tripwires = []) :
    ∃ quiet : Arming, withoutInterrupts quiet.published = withoutInterrupts last.published ∧
      act store = .ok () ((last.deliver event).withTripwires quiet) := by
  obtain ⟨quiet, hprecedes, hsuits, hact⟩ := h ⟨[], store.published, false⟩
    ⟨fun _ hm => absurd hm List.not_mem_nil, rfl⟩ (Nat.le_refl 0)
  have hstore : store.armedBy ⟨[], store.published, false⟩ = store := by
    rw [← ht]
    rfl
  -- with no tripwire there is no interrupt
  have hquiet : quiet.delivered = false := by
    rw [Bool.eq_false_iff]
    intro hs
    rcases hprecedes.spent hs with h | h
    · cases h
    · exact absurd h (Nat.not_lt_zero _)
  rw [hstore, hquiet] at hact
  exact ⟨quiet, hsuits.published, hact⟩

/-! ### Tripwires -/

/-- An interrupt that is published at a certain depth is delivered, whatever it sets off. -/
def DeliversInterrupt (depth : Nat) (store : Store) : Prop :=
  ∀ arming : Arming, arming.Suits store → arming.wires.length < depth →
    ∃ after : Arming, after.wires.Sublist arming.wires ∧
      arming.published <:+ after.published ∧ after.delivered = true ∧ after.Suits store ∧
      putWithin depth .interrupt (store.armedBy arming) = .ok () (store.armedBy after)

theorem trip_armedBy (wire : Tripwire) (arming : Arming) (store : Store) (event : Event) :
    (trip event wire).run (store.armedBy arming) = .ok [] (store.armedBy arming) ∨
      ∃ left : Arming, left.wires.Sublist arming.wires ∧
        left.wires.length < arming.wires.length ∧ left.published = arming.published ∧
        left.delivered = arming.delivered ∧
        (trip event wire).run (store.armedBy arming) = .ok [wire.event] (store.armedBy left) := by
  cases hoff : (store.armedBy arming).setOff wire event with
  | false =>
    left
    show trip event wire (store.armedBy arming) = _
    rw [trip, hoff]
    rfl
  | true =>
    right
    have hany : arming.wires.any (fun armed => armed.ticket == wire.ticket) = true :=
      (Bool.and_eq_true_iff.mp (Bool.and_eq_true_iff.mp hoff).1).1
    obtain ⟨armed, harmed, hticket⟩ := List.any_eq_true.mp hany
    -- a tripwire goes off once: it is taken away before what it publishes is published
    refine ⟨{ arming with wires := arming.wires.filter fun other => other.ticket != wire.ticket },
      List.filter_sublist, ?_, rfl, rfl, ?_⟩
    · exact List.length_filter_lt_length_iff_exists.mpr ⟨armed, harmed, by simpa using hticket⟩
    · show trip event wire (store.armedBy arming) = _
      rw [trip, hoff]
      rfl

/-- The tripwires that an event sets off leave the store as it is, but for an interrupt. -/
theorem runsUnder_tripping {depth : Nat} (hput : DeliversInterrupt depth store) (event : Event)
    {wires : List Tripwire} (hw : ∀ wire ∈ wires, wire.event = .interrupt) :
    RunsUnder depth (wires.forM (putHearing depth (trip event))) store store := by
  -- over the wires that hear the event; the arming they leave for the others only gets shorter
  induction wires with
  | nil => exact .refl _ _
  | cons wire wires ih =>
    have hone : RunsUnder depth (putHearing depth (trip event) wire) store store := by
      intro arming hs hb
      rcases trip_armedBy wire arming store event with
        htrip | ⟨left, hsublist, hless, hpublished, hdelivered, htrip⟩
      · exact ⟨arming, .refl _, hs, run_bind_ok htrip⟩
      · -- the tripwire is gone when its interrupt is published
        have hleft : left.Suits store :=
          ⟨fun other ho => hs.interrupts other (hsublist.subset ho), hpublished ▸ hs.published⟩
        obtain ⟨after, hafter, hgrows, hdelivered, hsuits, hinterrupt⟩ :=
          hput left hleft (Nat.lt_of_lt_of_le hless hb)
        refine ⟨after,
          ⟨hafter.trans hsublist, hpublished ▸ hgrows, fun _ => hdelivered, fun _ => ?_⟩,
          hsuits, ?_⟩
        · exact .inr (Nat.lt_of_le_of_lt hafter.length_le hless)
        · refine (run_bind_ok htrip).trans ?_
          rw [hw wire List.mem_cons_self]
          exact forM_cons_of_ok hinterrupt rfl
    exact hone.trans (ih fun other ho => hw other (List.mem_cons_of_mem _ ho))

theorem takeIn_armedBy (h : store.OfSession) {slices : Slices}
    (hr : store.bench.slices.reduce event Session.slices = (slices, none)) (arming : Arming) :
    takeIn event ((store.armedBy arming).note event)
      = .ok () ((store.record { store.bench with slices } [event]).armedBy
        (arming.note event)) := by
  rw [← h.order] at hr
  have hbench : ((store.armedBy arming).note event).bench = store.bench :=
    bench_interruptIf arming.delivered store
  rw [takeIn, hbench, Workbench.reduce, hr, armedBy, armedBy, interruptIf_record]
  rfl

/-- **An interrupt is delivered once, whatever it sets off.** -/
theorem putWithin_interrupt (h : store.OfSession) (depth : Nat) :
    DeliversInterrupt depth store := by
  -- on the depth: every interrupt inside costs a tripwire, so there are fewer of them than levels
  induction depth with
  | zero => exact fun _ _ hb => absurd hb (Nat.not_lt_zero _)
  | succ depth ih =>
    intro arming hs hb
    have hr : store.bench.slices.reduce .interrupt Session.slices
        = (store.bench.slices, none) := rfl
    have hnoted : (arming.note .interrupt).Suits store := ⟨hs.interrupts, hs.published⟩
    obtain ⟨after, hprecedes, hsuits, htripped⟩ :=
      runsUnder_tripping ih .interrupt hs.interrupts _ hnoted (Nat.le_of_lt_succ hb)
    refine ⟨{ after with delivered := true }, hprecedes.sublist, ?_, rfl,
      ⟨hsuits.interrupts, hsuits.published⟩,
      ?_⟩
    · exact (List.suffix_cons _ _).trans hprecedes.grows
    · -- no listener of the session hears interrupts, so only the tripwires answer
      have htake := takeIn_armedBy h hr arming
      rw [armedBy_record] at htake
      refine putWithin_eq_ok_iff.mpr
        ⟨_, store.armedBy (arming.note .interrupt), _, htake, ?_, htripped, ?_⟩
      · rw [hearers_armedBy, hearers, h.listeners]
        rfl
      · exact (congrArg (withTripwires after) (h.deliver_interrupt after.delivered)).symm

/-! ### Publications -/

/-- Publishing an event in a store with tripwires: the slices take it, the listeners hear it, the
tripwires are set off, and it is delivered. -/
theorem publishesUnder_putWithin (h : store.OfSession) {bound depth : Nat} (hd : bound ≤ depth)
    {slices : Slices} (hr : store.bench.slices.reduce event Session.slices = (slices, none))
    (hlast : last.OfSession)
    (hheard : RunsUnder bound ((store.hearers event.kind).forM (putHearing depth (hear event)))
      (store.record { store.bench with slices } [event]) last) :
    PublishesUnder bound (putWithin (depth + 1) event) store last event := by
  intro arming hs hb
  have hnoted : (arming.note event).Suits (store.record { store.bench with slices } [event]) := by
    refine ⟨hs.interrupts, ?_⟩
    show withoutInterrupts ([event] ++ arming.published) =
      withoutInterrupts ([event] ++ store.published)
    rw [withoutInterrupts_append, withoutInterrupts_append, hs.published]
  -- first the listeners of the session, and then the tripwires that they have left
  obtain ⟨heard, hprecedes, hsuits, hhearing⟩ := hheard _ hnoted hb
  have hleft : heard.wires.length ≤ depth :=
    Nat.le_trans hprecedes.sublist.length_le (Nat.le_trans hb hd)
  obtain ⟨after, hprecedes', hsuits', htripping⟩ :=
    runsUnder_tripping (putWithin_interrupt hlast depth) event hsuits.interrupts heard hsuits hleft
  refine ⟨after, ((Arming.Precedes.note arming event).trans hprecedes).trans hprecedes', hsuits',
    putWithin_eq_ok_iff.mpr
      ⟨_, last.armedBy heard, last.armedBy after, takeIn_armedBy h hr arming, ?_, htripping, rfl⟩⟩
  rw [hearers_armedBy]
  exact hhearing

theorem runsUnder_derived (h : store.OfSession) (depth : Nat) (hd : event.Derived) :
    RunsUnder depth (putWithin (depth + 1) event) store
      (store.record (store.bench.takeAll [event]) [event]) := by
  -- nobody hears what follows from a step, and nobody waits for it
  have hunheard : RunsUnder depth ((store.hearers event.kind).forM (putHearing depth (hear event)))
      (store.record (store.bench.takeAll [event]) [event])
      (store.record (store.bench.takeAll [event]) [event]) := by
    rw [hearers_derived h.toWired hd]
    exact .refl _ _
  exact (publishesUnder_putWithin h (Nat.le_refl _) (Slices.reduce_derived hd _).1 (h.record _ _)
    hunheard).leads
    (h.unwatched _ (List.mem_cons_of_mem _ hd.kind_mem))

theorem runsUnder_answers (depth : Nat) {events : List Event}
    (hd : ∀ event ∈ events, event.Derived) :
    ∀ {store : Store}, store.OfSession → RunsUnder depth (events.forM (putWithin (depth + 1))) store
      (store.record (store.bench.takeAll events) events) := by
  induction events with
  | nil => exact fun _ => .refl _ _
  | cons event events ih =>
    intro store h
    have hrest := ih (fun e he => hd e (List.mem_cons_of_mem _ he))
      (h.record (store.bench.takeAll [event]) [event])
    rw [record_record] at hrest
    exact (runsUnder_derived h depth (hd event List.mem_cons_self)).trans hrest

theorem run_hear_armedBy {listener : Listener} {reached : Workbench} {answers : List Event}
    (hr : store.bench.react event listener = (reached, .ok answers)) (arming : Arming) :
    (hear event listener).run (store.armedBy arming)
      = .ok answers ((store.record reached []).armedBy arming) := by
  have hbench : (store.armedBy arming).bench = store.bench :=
    bench_interruptIf arming.delivered store
  show hear event listener (store.armedBy arming) = _
  rw [hear, hbench, hr, armedBy, armedBy, interruptIf_record]
  rfl

/-- Listeners that answer with what follows from a step do the same in a store with tripwires. -/
theorem runsUnder_hearing (depth : Nat) {listeners : List Listener}
    (hq : ∀ l ∈ listeners, Quiet event l) :
    ∀ {store : Store} {bench : Workbench} {events : List Event}, store.OfSession →
      store.bench.hearing event listeners = (bench, events, none) →
      RunsUnder depth (listeners.forM (putHearing (depth + 1) (hear event))) store
        (store.record bench events) := by
  -- over the listeners, each of which finds the workbench that the ones before it have left
  induction listeners with
  | nil =>
    intro store bench events _ hh
    cases hh
    exact .refl _ _
  | cons listener rest ih =>
    intro store bench events h hh
    obtain ⟨horder, hderived⟩ := hq listener List.mem_cons_self store.bench
    obtain ⟨⟨reached, answer⟩, hr⟩ : ∃ r, store.bench.react event listener = r := ⟨_, rfl⟩
    rw [hr] at horder hderived
    rw [Workbench.hearing, hr] at hh
    cases answer with
    | error fault => cases hh
    | ok answers =>
      obtain ⟨⟨last, more, fault⟩, hmore⟩ :
          ∃ r, (reached.takeAll answers).hearing event rest = r := ⟨_, rfl⟩
      dsimp only at hh
      rw [hmore] at hh
      cases hh
      -- the answers of one listener are published before the next one hears the event
      have hone : RunsUnder depth (putHearing (depth + 1) (hear event) listener) store
          (store.record (reached.takeAll answers) answers) := by
        intro arming hs hb
        obtain ⟨after, hprecedes, hsuits, hanswers⟩ :=
          runsUnder_answers depth (hderived answers rfl)
          (h.record reached [] horder) arming ⟨hs.interrupts, hs.published⟩ hb
        rw [record_record] at hsuits hanswers
        exact ⟨after, hprecedes, hsuits, (run_bind_ok (run_hear_armedBy hr arming)).trans hanswers⟩
      have hrest := ih (fun l hl => hq l (List.mem_cons_of_mem _ hl))
        (h.record (reached.takeAll answers) answers horder) hmore
      rw [record_record] at hrest
      exact hone.trans hrest

theorem depthLimit_armedBy (h : store.OfSession) (arming : Arming) :
    arming.wires.length + 1 + 1 ≤ (store.armedBy arming).depthLimit := by
  have hlisteners : (store.armedBy arming).listeners = Session.listeners :=
    (listeners_interruptIf arming.delivered store).trans h.listeners
  rw [depthLimit, hlisteners]
  show _ ≤ nestingLimit + (arming.wires.length + 1) * 7 + 1
  omega

/-- An interrupt from outside is delivered in spite of tripwires. -/
theorem OfSession.put_interrupt (h : store.OfSession) {arming : Arming} (hs : arming.Suits store)
    (hr : arming.delivered = false) :
    ∃ after, arming.Precedes after ∧ after.delivered = false ∧ after.Suits store ∧
      put .interrupt (store.withTripwires arming) = .ok ()
        ((store.deliver .interrupt).withTripwires after) := by
  have hlimit := depthLimit_armedBy h arming
  obtain ⟨after, hsublist, hgrows, hdelivered, hsuits, hput⟩ :=
    putWithin_interrupt h (store.armedBy arming).depthLimit arming hs (by omega)
  refine ⟨{ after with delivered := false }, ⟨hsublist, hgrows, fun hs => ?_, fun hs => ?_⟩, rfl,
    ⟨hsuits.interrupts, hsuits.published⟩, ?_⟩
  · exact absurd (hr.symm.trans hs) Bool.false_ne_true
  · exact absurd hs Bool.false_ne_true
  · rw [← armedBy_of_not_delivered hr]
    refine hput.trans ?_
    rw [armedBy, hdelivered]
    rfl

/-- A store without tripwires is one with none of them. -/
theorem OfSession.exists_withTripwires (h : store.OfSession) :
    ∃ arming : Arming, arming.Suits store ∧ arming.delivered = false ∧
      store.withTripwires arming = store := by
  refine ⟨⟨[], store.published, false⟩, ⟨fun _ hm => absurd hm List.not_mem_nil, rfl⟩, rfl, ?_⟩
  rw [withTripwires, ← h.tripwires]

/-- **Interrupts inside a publication might as well have come before.** -/
theorem publishesUnder_put (h : store.OfSession) {slices : Slices}
    (hr : store.bench.slices.reduce event Session.slices = (slices, none))
    (hq : ∀ l ∈ store.hearers event.kind, Quiet event l) {bench : Workbench} {events : List Event}
    (hh : ({ store.bench with slices } : Workbench).hearing event (store.hearers event.kind)
      = (bench, events, none)) (ho : bench.order = store.bench.order) (bound : Nat) :
    PublishesUnder bound (put event) store (store.record bench (event :: events)) event := by
  intro arming hs _
  have hnoted := h.record { store.bench with slices } [event]
  have hheard := runsUnder_hearing arming.wires.length hq hnoted hh
  rw [record_record] at hheard
  obtain ⟨after, hprecedes, hsuits, hput⟩ := publishesUnder_putWithin h (Nat.le_succ _) hr
    (h.record bench (event :: events) ho) hheard arming hs (Nat.le_refl _)
  exact ⟨after, hprecedes, hsuits, putWithin_mono (depthLimit_armedBy h arming) hput⟩

/-! ### The processing of a step -/

theorem publishesUnder_closing (h : store.OfSession) (bench : Workbench) (bound : Nat) :
    PublishesUnder bound (put bench.closing) store
      (store.record (store.bench.takeAll [bench.closing]).release [bench.closing])
      bench.closing := by
  have hr : store.bench.slices.reduce bench.closing Session.slices
      = (store.bench.slices.after [bench.closing], none) := by
    rw [Workbench.closing]
    split <;> rfl
  have hhearers := hearers_closing h.toWired bench
  have hquiet : ∀ l ∈ store.hearers bench.closing.kind, Quiet bench.closing l := by
    intro listener hl
    rw [hhearers] at hl
    obtain rfl := List.mem_singleton.mp hl
    exact quiet_of_silent fun _ => ⟨rfl, rfl⟩
  have hhear : (store.bench.takeAll [bench.closing]).hearing bench.closing
      (store.hearers bench.closing.kind)
        = ((store.bench.takeAll [bench.closing]).release, [], none) := by
    rw [hhearers]
    rfl
  exact publishesUnder_put h hr hquiet hhear rfl bound

theorem publishesUnder_tick (h : store.OfSession) {lines : List LogLine} {events : List Event}
    (hh : store.bench.hearing .tick (.holdFrame :: Workbench.readers)
      = ((store.bench.hold.takeAll events).logged lines, events, none)) (bound : Nat) :
    PublishesUnder bound (put .tick) store
      (store.record ((store.bench.hold.takeAll events).logged lines) (.tick :: events)) .tick := by
  have hr : store.bench.slices.reduce .tick Session.slices = (store.bench.slices, none) := rfl
  rw [← hearers_tick h.toWired] at hh
  exact publishesUnder_put h hr (quiet_of_hearer_tick h.toWired) hh rfl bound

/-- Apart from a line in the log, an advance is a TICK, if a step remains, and the closing event. -/
theorem advanceTrace_eq (hl : store.bench.recording.loaded = true) :
    advanceTrace store
      = ((modify fun store => store.record store.bench.announced [] : StoreM Unit) >>= fun _ =>
        if 0 < store.bench.recording.remaining then put .tick >>= fun _ => put store.bench.closing
        else put store.bench.closing) store := by
  show advanceTrace.run store = _
  rw [advanceTrace, run_get_bind]
  dsimp only
  rw [if_pos hl]
  split <;> rfl

theorem runsUnder_announced (bound : Nat) (store : Store) :
    RunsUnder bound (modify fun store => store.record store.bench.announced []) store
      (store.record store.bench.announced []) := by
  intro arming hs _
  refine ⟨arming, .refl _, ⟨hs.interrupts, hs.published⟩, ?_⟩
  have hbench : (store.armedBy arming).bench = store.bench :=
    bench_interruptIf arming.delivered store
  show EStateM.Result.ok () ((store.armedBy arming).record
    (store.armedBy arming).bench.announced []) = _
  rw [hbench, armedBy, armedBy, interruptIf_record]
  rfl

/-- **Interrupts inside the processing of a step might as well have come before.** -/
theorem publishesUnder_advanceTrace {bench : Workbench} (hl : bench.recording.loaded = true)
    {events : List Event} (hp : bench.passage = .ok events) :
    ∃ lines, ∀ {store : Store}, store.bench = bench → store.OfSession → ∀ bound,
      PublishesUnder bound advanceTrace store
        (store.record ((bench.takeAll events).release.logged lines) events) bench.closing := by
  -- whether a step remains is read off the workbench, which tripwires do not change
  have hparts {store : Store} (hb : store.bench = bench) {bound : Nat} {last : Store}
      (hparts : PublishesUnder bound (if 0 < bench.recording.remaining then
          put .tick >>= fun _ => put bench.closing else put bench.closing)
        (store.record bench.announced []) last bench.closing) :
      PublishesUnder bound advanceTrace store last bench.closing := by
    subst hb
    intro arming hs hbound
    have hbench : (store.armedBy arming).bench = store.bench :=
      bench_interruptIf arming.delivered store
    have hloaded : (store.armedBy arming).bench.recording.loaded = true := by
      rw [hbench]
      exact hl
    obtain ⟨after, hprecedes, hsuits, hact⟩ :=
      (runsUnder_announced bound store).publishes hparts arming hs hbound
    refine ⟨after, hprecedes, hsuits, ?_⟩
    rw [advanceTrace_eq hloaded, hbench]
    exact hact
  rw [Workbench.passage] at hp
  split at hp
  -- a step remains: its TICK with what follows from it, and then the closing event
  case isTrue hr =>
    obtain ⟨found, hfound, rfl⟩ := exists_of_map_eq_ok hp
    obtain ⟨lines, events, fault, hhear, -, hgather⟩ := bench.announced.hearing_step
    have hfound' : bench.announced.consequences = .ok found := hfound
    rw [hfound'] at hgather
    cases fault with
    | some fault => cases hgather
    | none =>
      obtain rfl := Except.ok.inj hgather
      refine ⟨lines, fun {store} hb h bound => hparts hb ?_⟩
      have horder : bench.announced.order = store.bench.order := by rw [hb]; rfl
      have hannounced := h.record bench.announced [] horder
      have hticked : ((store.record bench.announced []).record
          ((bench.announced.hold.takeAll found).logged lines) (.tick :: found)).OfSession :=
        hannounced.record _ _
      have htick := publishesUnder_tick hannounced hhear bound
      have hclosing := publishesUnder_closing hticked bench bound
      have hall := (htick.leads (h.unwatched _ List.mem_cons_self)).publishes hclosing
      rw [record_record, record_record] at hall
      rw [if_pos hr]
      have hbench : bench.takeAll (.tick :: found ++ [bench.closing])
          = (bench.takeAll found).takeAll [bench.closing] :=
        bench.takeAll_append found [bench.closing]
      rw [hbench]
      exact hall
  -- at the end of the trace there is the closing event alone
  case isFalse hr =>
    obtain rfl := Except.ok.inj hp
    refine ⟨bench.announced.lines, fun {store} hb h bound => hparts hb ?_⟩
    have hend : bench.closing = .endOfTrace :=
      if_neg fun h1 => hr (Nat.lt_trans Nat.zero_lt_one h1)
    have horder : bench.announced.order = store.bench.order := by rw [hb]; rfl
    have hclosing := publishesUnder_closing (h.record bench.announced [] horder) bench bound
    rw [if_neg hr]
    rw [record_record, hend] at hclosing
    rw [hend]
    exact hclosing

end Store

end TraceDebugger
