/-
Saving a trace erases what was before.

All slices start anew when a trace is saved, but the frame that is held does not: it may be left
over from a step that was begun.  A frame is held anew before any listener looks at a step, so
nothing that is published afterwards tells which events came before.

* `Guarded` — listeners of which none looks at a step before the frame is held;
* `Parallel` — a program has the same outcome in two stores, and leaves them related;
* `parallel_putWithin` — so does a publication in two stores that differ in the frame that is held;
* `reduce_saveSteps` — when a trace is saved the slices do not depend on what they were;
* `Rewired.putAll` — no publication changes the wiring of a store;
* `erases_saveSteps` — the main result.
-/
import TraceDebugger.Proofs.Store.Moments
import TraceDebugger.Proofs.Store.Upkeep

namespace TraceDebugger

/-! ### Workbenches -/

namespace Workbench

variable {bench other : Workbench} {event : Event} {listener : Listener}

/-- Two workbenches that agree, and in which the same frame is held. -/
structure Twin (bench other : Workbench) : Prop extends bench.Agrees other where
  held : other.held = bench.held

theorem Twin.sight (h : bench.Twin other) : other.sight = bench.sight := by
  have howner : other.ownerFrame = bench.ownerFrame := by
    rw [ownerFrame, ownerFrame, currentCall, currentCall, h.held, h.slices]
  rw [Workbench.sight, Workbench.sight, howner, h.slices, h.programs, h.checksum]

theorem held_react (event : Event) (bench : Workbench) (listener : Listener) :
    (bench.react event listener).1.held = bench.heldBy listener := by
  obtain ⟨heard, lines, hreact⟩ := bench.react_eq event listener
  rw [hreact]

theorem answer_react (event : Event) (bench : Workbench) (listener : Listener) :
    (bench.react event listener).2 = bench.answerBy event listener := by
  obtain ⟨heard, lines, hreact⟩ := bench.react_eq event listener
  rw [hreact]

/-- Workbenches that agree do so after a reaction. -/
theorem Agrees.react (h : bench.Agrees other) (event : Event) (listener : Listener) :
    (bench.react event listener).1.Agrees (other.react event listener).1 :=
  (bench.agrees_react event listener).symm.trans (h.trans (other.agrees_react event listener))

/-- Whoever does not look at the step always answers the same. -/
theorem answer_of_not_mem_readers (h : listener ∉ readers) :
    (other.react event listener).2 = (bench.react event listener).2 := by
  rw [answer_react, answer_react]
  cases listener with
  | followJumps => exact absurd (by simp [readers]) h
  | trackCalls => exact absurd (by simp [readers]) h
  | bindVariables => exact absurd (by simp [readers]) h
  | _ => rfl

/-- Whoever does looks at its sight only. -/
theorem Twin.answer (h : bench.Twin other) :
    (other.react event listener).2 = (bench.react event listener).2 := by
  have hanswer : other.answerOf listener = bench.answerOf listener := by
    rw [← other.answerOf_sight, ← bench.answerOf_sight, h.sight]
  rw [answer_react, answer_react]
  cases listener with
  | relay tag kinds answer => rfl
  | _ => exact hanswer

theorem Twin.react (h : bench.Twin other) (event : Event) (listener : Listener) :
    (bench.react event listener).1.Twin (other.react event listener).1 := by
  refine ⟨h.toAgrees.react event listener, ?_⟩
  rw [held_react, held_react]
  cases listener with
  | holdFrame => rw [heldBy, heldBy, currentCall, currentCall, h.slices]
  | releaseFrame => rfl
  | _ => exact h.held

/-- Once the frame is held it is the same. -/
theorem Agrees.hold (h : bench.Agrees other) (event : Event) :
    (bench.react event .holdFrame).1.Twin (other.react event .holdFrame).1 := by
  refine ⟨h.react event .holdFrame, ?_⟩
  rw [held_react, held_react, heldBy, heldBy, currentCall, currentCall, h.slices]

theorem Agrees.reduce (h : bench.Agrees other) (event : Event) :
    (bench.reduce event).1.Agrees (other.reduce event).1 ∧
      (other.reduce event).2 = (bench.reduce event).2 := by
  have hsame : other.slices.reduce event other.order = bench.slices.reduce event bench.order := by
    rw [h.slices, h.order]
  have hslices : (other.slices.reduce event other.order).1
      = (bench.slices.reduce event bench.order).1 := by rw [hsame]
  have hfault : (other.slices.reduce event other.order).2
      = (bench.slices.reduce event bench.order).2 := by rw [hsame]
  exact ⟨⟨hslices, h.order, h.programs, h.checksum⟩, hfault⟩

end Workbench

/-- The slices when a trace has just been saved. -/
def Slices.saved (steps : List Step) (initial : Int) : Slices :=
  { recording := .ofSteps steps, functionDepth := ⟨initial, initial⟩ }

/-- In a row of listeners none looks at a step before the frame is held. -/
inductive Guarded : List Listener → Prop
  | nil : Guarded []
  | held (rest : List Listener) : Guarded (.holdFrame :: rest)
  | cons {listener : Listener} {rest : List Listener} (h : listener ∉ Workbench.readers)
    (hrest : Guarded rest) : Guarded (listener :: rest)

theorem Guarded.of_forall {listeners : List Listener}
    (h : ∀ listener ∈ listeners, listener ∉ Workbench.readers) : Guarded listeners := by
  induction listeners with
  | nil => exact .nil
  | cons listener rest ih =>
    exact .cons (h _ List.mem_cons_self) (ih fun other ho => h other (List.mem_cons_of_mem _ ho))

theorem Guarded.append {first second : List Listener}
    (hf : ∀ listener ∈ first, listener ∉ Workbench.readers) (h : Guarded second) :
    Guarded (first ++ second) := by
  induction first with
  | nil => exact h
  | cons listener rest ih =>
    exact .cons (hf _ List.mem_cons_self) (ih fun other ho => hf other (List.mem_cons_of_mem _ ho))

namespace Store

open Workbench (Agrees Twin)

variable {α β : Type} {store store' : Store} {event : Event}

theorem hearings_of_mem_readers {kind : EventKind} (hkind : kind ≠ .tick) {listener : Listener}
    (h : listener ∈ Workbench.readers) : listener.hearings kind = 0 := by
  simp only [Workbench.readers, List.mem_cons, List.not_mem_nil, or_false] at h
  rcases h with rfl | rfl | rfl <;> exact if_neg hkind

/-- Those who hear an event are guarded if the listeners are: who looks at the step hears a TICK
only, and the frame is held at each. -/
theorem guarded_hearers (kind : EventKind) (h : Guarded store.listeners) :
    Guarded (store.hearers kind) := by
  rw [hearers]
  by_cases hkind : kind = .tick
  · subst hkind
    generalize store.listeners = listeners at h ⊢
    induction h with
    | nil => exact .nil
    | held rest => exact .held _
    | cons h _ ih =>
      refine .append (fun listener hl => ?_) ih
      rwa [List.eq_of_mem_replicate hl]
  · refine .of_forall fun listener hl hreader => ?_
    obtain ⟨found, -, hl⟩ := List.mem_flatMap.mp hl
    obtain ⟨hhears, rfl⟩ := List.mem_replicate.mp hl
    exact hhears (hearings_of_mem_readers hkind hreader)

/-! ### Two stores -/

/-- Two stores have the same listeners, which are guarded, and no tripwires, and their workbenches
are related. -/
structure Beside (related : Workbench → Workbench → Prop) (store store' : Store) : Prop where
  bench : related store.bench store'.bench
  listeners : store'.listeners = store.listeners
  guarded : Guarded store.listeners
  tripwires : store.tripwires = []
  tripwires' : store'.tripwires = []

/-- Two programs return or fail with the same, and leave stores beside one another. -/
def SameOutcome (after : Workbench → Workbench → Prop)
    (result result' : EStateM.Result Fault Store α) : Prop :=
  (∃ a last last', result = .ok a last ∧ result' = .ok a last' ∧ Beside after last last') ∨
    ∃ fault last last', result = .error fault last ∧ result' = .error fault last' ∧
      Beside Agrees last last'

/-- A program has the same outcome in two stores beside one another. -/
def Parallel (before after : Workbench → Workbench → Prop) (act : StoreM α) : Prop :=
  ∀ store store', Beside before store store' → SameOutcome after (act store) (act store')

section

variable {before middle after related : Workbench → Workbench → Prop}

theorem Beside.weaken (h : Beside before store store')
    (hr : ∀ {bench other}, before bench other → after bench other) : Beside after store store' :=
  { h with bench := hr h.bench }

/-- What is done next after the same outcome. -/
theorem SameOutcome.bind {act : StoreM α} {next : α → StoreM β}
    (h : SameOutcome middle (act store) (act store')) (hn : ∀ a, Parallel middle after (next a)) :
    SameOutcome after ((act >>= next) store) ((act >>= next) store') := by
  obtain ⟨a, last, last', hact, hact', hlast⟩ | ⟨fault, last, last', hact, hact', hlast⟩ := h
  · have hrun : (act >>= next) store = next a last := run_bind_ok hact
    have hrun' : (act >>= next) store' = next a last' := run_bind_ok hact'
    rw [hrun, hrun']
    exact hn a last last' hlast
  · exact .inr ⟨fault, last, last', run_bind_error hact, run_bind_error hact', hlast⟩

theorem parallel_modify {change : Store → Store}
    (h : ∀ {store store'}, Beside before store store' →
      Beside after (change store) (change store')) :
    Parallel before after (modify change : StoreM PUnit) :=
  fun store store' hbeside => .inl ⟨⟨⟩, change store, change store', rfl, rfl, h hbeside⟩

theorem Parallel.bind {act : StoreM α} {next : α → StoreM β} (h : Parallel before middle act)
    (hn : ∀ a, Parallel middle after (next a)) : Parallel before after (act >>= next) :=
  fun store store' hbeside => (h store store' hbeside).bind hn

theorem Parallel.weaken {act : StoreM α} (h : Parallel before middle act)
    (hr : ∀ {bench other}, middle bench other → after bench other) :
    Parallel before after act := by
  intro store store' hbeside
  obtain ⟨a, last, last', hact, hact', hlast⟩ | hfault := h store store' hbeside
  · exact .inl ⟨a, last, last', hact, hact', hlast.weaken hr⟩
  · exact .inr hfault

theorem parallel_throw (hr : ∀ {bench other}, before bench other → bench.Agrees other)
    (fault : Fault) : Parallel before after (throw fault : StoreM α) :=
  fun store store' h => .inr ⟨fault, store, store', rfl, rfl, h.weaken hr⟩

/-- What follows may look at what is the same in the stores. -/
theorem parallel_get {next : Store → StoreM β}
    (h : ∀ {store store'}, Beside before store store' →
      next store' = next store ∧ Parallel before after (next store)) :
    Parallel before after (get >>= next) := by
  intro store store' hbeside
  obtain ⟨hnext, hparallel⟩ := h hbeside
  have hrun : (get >>= next) store' = next store' store' := rfl
  rw [hrun, hnext]
  exact hparallel store store' hbeside

theorem parallel_forM {act : β → StoreM Unit} {l : List β}
    (h : ∀ b ∈ l, Parallel related related (act b)) : Parallel related related (l.forM act) := by
  induction l with
  | nil => exact fun store store' hbeside => .inl ⟨(), store, store', rfl, rfl, hbeside⟩
  | cons b rest ih =>
    exact (h b List.mem_cons_self).bind fun _ => ih fun c hc => h c (List.mem_cons_of_mem b hc)

/-- A listener answers the same if it does at workbenches that are so related. -/
theorem parallel_hear {listener : Listener}
    (hweak : ∀ {bench other}, before bench other → bench.Agrees other)
    (hanswer : ∀ {bench other : Workbench}, before bench other →
      (other.react event listener).2 = (bench.react event listener).2)
    (hreact : ∀ {bench other : Workbench}, before bench other →
      after (bench.react event listener).1 (other.react event listener).1) :
    Parallel before after (hear event listener) := by
  intro store store' hbeside
  have hsame := hanswer hbeside.bench
  have hafter := hreact hbeside.bench
  have hagrees := (hweak hbeside.bench).react event listener
  obtain ⟨⟨bench, answer⟩, hbench⟩ : ∃ reaction, store.bench.react event listener = reaction :=
    ⟨_, rfl⟩
  obtain ⟨⟨other, answer'⟩, hother⟩ : ∃ reaction, store'.bench.react event listener = reaction :=
    ⟨_, rfl⟩
  rw [hbench, hother] at hsame hafter hagrees
  obtain rfl : answer' = answer := hsame
  rw [hear, hear, hbench, hother]
  -- after a fault the workbenches need only agree, as nobody goes on from there
  cases answer' with
  | ok events => exact .inl ⟨events, _, _, rfl, rfl, { hbeside with bench := hafter }⟩
  | error fault => exact .inr ⟨fault, _, _, rfl, rfl, { hbeside with bench := hagrees }⟩

/-- The slices take an event alike. -/
theorem parallel_takeNoted
    (hweak : ∀ {bench other}, related bench other → bench.Agrees other)
    (hreduce : ∀ {bench other : Workbench}, related bench other →
      related (bench.reduce event).1 (other.reduce event).1) :
    Parallel related related (takeNoted event) := by
  have hnote : Parallel related related (modify (note event) : StoreM PUnit) :=
    parallel_modify fun hbeside => { hbeside with }
  refine hnote.bind fun _ => ?_
  intro store store' hbeside
  obtain ⟨hagrees, hfault⟩ := (hweak hbeside.bench).reduce event
  have hrelated := hreduce hbeside.bench
  obtain ⟨⟨bench, fault⟩, hbench⟩ : ∃ reduced, store.bench.reduce event = reduced := ⟨_, rfl⟩
  obtain ⟨⟨other, fault'⟩, hother⟩ : ∃ reduced, store'.bench.reduce event = reduced := ⟨_, rfl⟩
  rw [hbench, hother] at hagrees hfault hrelated
  obtain rfl : fault' = fault := hfault
  rw [takeIn, takeIn, hbench, hother]
  cases fault' with
  | none => exact .inl ⟨(), _, _, rfl, rfl, { hbeside with bench := hrelated }⟩
  | some fault => exact .inr ⟨fault, _, _, rfl, rfl, { hbeside with bench := hagrees }⟩

/-- Where those who hear an event do it alike, there being no tripwires, it is answered alike. -/
theorem parallel_answered {depth : Nat}
    (h : ∀ {store : Store}, Guarded store.listeners → Parallel before after
      ((store.hearers event.kind).forM fun listener => do
        (← hear event listener).forM (putWithin depth))) :
    Parallel before after (answered depth event) := by
  refine parallel_get fun {store store'} hbeside => ⟨?_, ?_⟩
  · rw [hearers, hearers, hbeside.listeners]
  · refine (h hbeside.guarded).bind fun _ => parallel_get fun hheard => ⟨?_, ?_⟩
    · rw [hheard.tripwires, hheard.tripwires']
    · rw [hheard.tripwires]
      exact parallel_modify fun hlast => { hlast with }

end

theorem agrees_of_twin {bench other : Workbench} (h : bench.Twin other) : bench.Agrees other :=
  h.toAgrees

/-- What hears an event in stores in which the same frame is held hears it alike. -/
theorem parallel_hear_twin {depth : Nat} (ih : ∀ event, Parallel Twin Twin (putWithin depth event))
    (event : Event) (l : List Listener) :
    Parallel Twin Twin (l.forM fun listener => do
      (← hear event listener).forM (putWithin depth)) :=
  parallel_forM fun listener _ =>
    (parallel_hear agrees_of_twin Twin.answer fun h => h.react event listener).bind fun _ =>
      parallel_forM fun e _ => ih e

/-- Guarded listeners hear an event alike whichever frame is held: those before the frame is held
do not look at it, and then it is the same. -/
theorem parallel_hear_guarded {depth : Nat}
    (ih : ∀ event, Parallel Agrees Agrees (putWithin depth event))
    (ihtwin : ∀ event, Parallel Twin Twin (putWithin depth event)) (event : Event)
    {l : List Listener} (hl : Guarded l) :
    Parallel Agrees Agrees (l.forM fun listener => do
      (← hear event listener).forM (putWithin depth)) := by
  induction hl with
  | nil => exact parallel_forM fun _ hl => absurd hl List.not_mem_nil
  | held rest =>
    -- from here on the same frame is held, so the others may look at the step
    have hhold : Parallel Agrees Twin (hear event .holdFrame) :=
      parallel_hear id (fun _ => rfl) fun h => h.hold event
    have hrest := parallel_hear_twin ihtwin event rest
    have hheld := hhold.bind fun events => parallel_forM fun e (_ : e ∈ events) => ihtwin e
    exact (hheld.bind fun _ => hrest).weaken agrees_of_twin
  | @cons listener rest h _ ih' =>
    have hhear : Parallel Agrees Agrees (hear event listener) :=
      parallel_hear id (fun _ => Workbench.answer_of_not_mem_readers h) fun hagrees =>
        hagrees.react event listener
    exact (hhear.bind fun _ => parallel_forM fun e _ => ih e).bind fun _ => ih'

theorem twin_reduce {bench other : Workbench} (h : bench.Twin other) (event : Event) :
    (bench.reduce event).1.Twin (other.reduce event).1 :=
  ⟨(h.toAgrees.reduce event).1, h.held⟩

/-- **An event is published alike whichever frame is held**, and if the same one is held before, the
same one is afterwards. -/
theorem parallel_putWithin (depth : Nat) :
    (∀ event, Parallel Agrees Agrees (putWithin depth event)) ∧
      ∀ event, Parallel Twin Twin (putWithin depth event) := by
  induction depth with
  | zero => exact ⟨fun _ => parallel_throw id _, fun _ => parallel_throw agrees_of_twin _⟩
  | succ depth ih =>
    obtain ⟨ih, ihtwin⟩ := ih
    refine ⟨fun event => ?_, fun event => ?_⟩
    · rw [putWithin_eq_bind]
      exact (parallel_takeNoted id fun h => (h.reduce event).1).bind fun _ =>
        parallel_answered fun hl => parallel_hear_guarded ih ihtwin event (guarded_hearers _ hl)
    · rw [putWithin_eq_bind]
      exact (parallel_takeNoted agrees_of_twin fun h => twin_reduce h event).bind fun _ =>
        parallel_answered fun _ => parallel_hear_twin ihtwin event _

theorem depthLimit_beside {related : Workbench → Workbench → Prop}
    (h : Beside related store store') : store'.depthLimit = store.depthLimit := by
  rw [depthLimit, depthLimit, h.listeners, h.tripwires, h.tripwires']

theorem parallel_put (event : Event) : Parallel Agrees Agrees (put event) :=
  parallel_get fun {store store'} hbeside =>
    ⟨by rw [depthLimit_beside hbeside], (parallel_putWithin store.depthLimit).1 event⟩

/-! ### Wirings -/

/-- The parts of a session are wired to a store: all slices take events, no listener looks at a step
before the frame is held, and there are no tripwires. -/
structure Fitted (store : Store) : Prop where
  slices : ∀ name, name ∈ store.bench.order
  guarded : Guarded store.listeners
  tripwires : store.tripwires = []

/-- A later store is wired as before. -/
structure Rewired (start store : Store) : Prop where
  listeners : store.listeners = start.listeners
  tripwires : store.tripwires = []
  order : store.bench.order = start.bench.order
  programs : store.bench.programs = start.bench.programs
  checksum : store.bench.checksum = start.bench.checksum
  initial : store.bench.slices.functionDepth.initial = start.bench.slices.functionDepth.initial

variable {start : Store}

theorem Fitted.rewired (h : start.Fitted) : start.Rewired start :=
  ⟨rfl, h.tripwires, rfl, rfl, rfl, rfl⟩

theorem Rewired.onBench {bench : Workbench} (h : start.Rewired store)
    (hb : store.bench.Agrees bench) : start.Rewired { store with bench } :=
  { h with
    order := hb.order.trans h.order
    programs := hb.programs.trans h.programs
    checksum := hb.checksum.trans h.checksum
    initial := hb.slices ▸ h.initial }

theorem rewired_takeNoted (event : Event) :
    Upholds start.Rewired (fun _ => True) (takeNoted event) := by
  refine (upholds_modify fun store h => { h with }).bind fun _ _ store h => ?_
  have hinitial : (store.bench.slices.reduce event store.bench.order).1.functionDepth.initial
      = store.bench.slices.functionDepth.initial := by
    rw [← Slices.atLast_stages]
    exact (Slices.course_stages event _ _).initial
  have hreduced : start.Rewired { store with bench := (store.bench.reduce event).1 } :=
    { h with initial := hinitial.trans h.initial }
  rw [takeIn]
  cases hreduce : store.bench.reduce event with
  | mk bench fault =>
    rw [hreduce] at hreduced
    cases fault with
    | none => exact .inl ⟨(), _, rfl, hreduced, trivial⟩
    | some fault => exact .inr ⟨fault, _, rfl, hreduced⟩

theorem rewired_hear (event : Event) (listener : Listener) :
    Upholds start.Rewired (fun _ => True) (hear event listener) := by
  intro store h
  have hheard := h.onBench (store.bench.agrees_react event listener)
  rw [hear]
  cases hreact : store.bench.react event listener with
  | mk bench answer =>
    rw [hreact] at hheard
    cases answer with
    | ok events => exact .inl ⟨events, _, rfl, hheard, trivial⟩
    | error fault => exact .inr ⟨fault, _, rfl, hheard⟩

/-- No publication changes the wiring, whether it fails or not. -/
theorem rewired_putWithin (depth : Nat) :
    ∀ event, Upholds start.Rewired (fun _ => True) (putWithin depth event) := by
  induction depth with
  | zero => exact fun _ => upholds_throw _
  | succ depth ih =>
    intro event
    rw [putWithin_eq_bind]
    refine (rewired_takeNoted event).bind fun _ _ => upholds_get fun _ _ => ?_
    refine (upholds_forM fun listener _ => (rewired_hear event listener).bind fun events _ =>
      upholds_forM fun e _ => ih e).bind fun _ _ => upholds_get fun heard hheard => ?_
    rw [hheard.tripwires]
    exact upholds_modify fun store h => { h with }

theorem rewired_put (event : Event) : Upholds start.Rewired (fun _ => True) (put event) :=
  fun store h => rewired_putWithin store.depthLimit event store h

/-! ### Saving a trace -/

/-- A slice is as it is after a trace has been saved. -/
def IsSaved (steps : List Step) (initial : Int) (slices : Slices) : SliceName → Prop
  | .recording => slices.recording = .ofSteps steps
  | .callStack => slices.callStack = {}
  | .bindings => slices.bindings = {}
  | .functionDepth => slices.functionDepth = ⟨initial, initial⟩

/-- Every slice starts anew and leaves the others as they are. -/
theorem reduceOne_saveSteps (steps : List Step) (slices : Slices) (name : SliceName) :
    ∃ next, slices.reduceOne (.saveSteps steps) name = (next, none) ∧
      next.functionDepth.initial = slices.functionDepth.initial ∧
      ∀ other, name = other ∨ IsSaved steps slices.functionDepth.initial slices other →
        IsSaved steps slices.functionDepth.initial next other := by
  cases name <;> refine ⟨_, rfl, rfl, fun other hother => ?_⟩ <;> cases other <;>
    first
      | exact rfl
      | exact hother.resolve_left nofun

theorem reduce_saveSteps (steps : List Step) (order : List SliceName) : ∀ slices : Slices,
    ∃ next, slices.reduce (.saveSteps steps) order = (next, none) ∧
      ∀ name, name ∈ order ∨ IsSaved steps slices.functionDepth.initial slices name →
        IsSaved steps slices.functionDepth.initial next name := by
  -- on the slices still to come; each that has taken the trace stays as it is
  induction order with
  | nil => exact fun slices => ⟨slices, rfl, fun _ h => h.resolve_left List.not_mem_nil⟩
  | cons name rest ih =>
    intro slices
    obtain ⟨middle, hone, hinitial, hmiddle⟩ := reduceOne_saveSteps steps slices name
    obtain ⟨next, hrest, hnext⟩ := ih middle
    rw [hinitial] at hnext
    refine ⟨next, ?_, fun other hother => ?_⟩
    · rw [Slices.reduce, hone]
      exact hrest
    · rcases hother with hother | hother
      · rcases List.mem_cons.mp hother with rfl | hother
        · exact hnext _ (.inr (hmiddle _ (.inl rfl)))
        · exact hnext _ (.inl hother)
      · exact hnext _ (.inr (hmiddle _ (.inr hother)))

/-- When a trace is saved nothing is left of the slices but where function calls start. -/
theorem Rewired.slices_saveSteps (h : start.Fitted) (hw : start.Rewired store) (steps : List Step) :
    store.bench.slices.reduce (.saveSteps steps) store.bench.order
      = (.saved steps start.bench.slices.functionDepth.initial, none) := by
  obtain ⟨next, hreduce, hnext⟩ := reduce_saveSteps steps store.bench.order store.bench.slices
  have hsaved (name : SliceName) :
      IsSaved steps start.bench.slices.functionDepth.initial next name := by
    rw [← hw.initial]
    exact hnext name (.inl (hw.order ▸ h.slices name))
  have hrecording : next.recording = .ofSteps steps := hsaved .recording
  have hcallStack : next.callStack = {} := hsaved .callStack
  have hbindings : next.bindings = {} := hsaved .bindings
  have hdepth : next.functionDepth = _ := hsaved .functionDepth
  rw [hreduce, Slices.saved, ← hrecording, ← hdepth, ← hcallStack, ← hbindings]

theorem Rewired.takeNoted_saveSteps (h : start.Fitted) (hw : start.Rewired store)
    (steps : List Step) : takeNoted (.saveSteps steps) store
      = .ok () { store.note (.saveSteps steps) with
        bench := { store.bench with
          slices := .saved steps start.bench.slices.functionDepth.initial } } := by
  have hrun : takeNoted (.saveSteps steps) store
      = takeIn (.saveSteps steps) (store.note (.saveSteps steps)) := rfl
  have hreduce : (store.note (.saveSteps steps)).bench.reduce (.saveSteps steps)
      = ({ store.bench with slices := .saved steps start.bench.slices.functionDepth.initial },
        none) :=
    congrArg (fun reduced : Slices × Option Fault =>
      ({ store.bench with slices := reduced.1 }, reduced.2)) (hw.slices_saveSteps h steps)
  rw [hrun, takeIn, hreduce]

/-- Whatever two stores of the same wiring have been through, a trace is saved alike in both. -/
theorem put_saveSteps (h : start.Fitted) (hw : start.Rewired store) (hw' : start.Rewired store')
    (steps : List Step) :
    SameOutcome Agrees (put (.saveSteps steps) store) (put (.saveSteps steps) store') := by
  -- both stores have the listeners of the start and no tripwires, and so the same limit
  obtain ⟨depth, hdepth⟩ : ∃ depth, start.depthLimit = depth + 1 := ⟨_, rfl⟩
  have hput {store : Store} (hw : start.Rewired store) : put (.saveSteps steps) store
      = (takeNoted (.saveSteps steps) >>= fun _ => answered depth (.saveSteps steps)) store := by
    have hlimit : store.depthLimit = start.depthLimit := by
      rw [depthLimit, depthLimit, hw.listeners, hw.tripwires, h.tripwires]
    rw [← putWithin_eq_bind, put, hlimit, hdepth]
  rw [hput hw, hput hw']
  -- the slices take the trace to one state, and from there on the stores answer alike
  have htaken := hw.takeNoted_saveSteps h steps
  have htaken' := hw'.takeNoted_saveSteps h steps
  refine SameOutcome.bind (.inl ⟨(), _, _, htaken, htaken', ?_⟩) fun _ =>
    parallel_answered fun hl => parallel_hear_guarded (parallel_putWithin _).1
      (parallel_putWithin _).2 _ (guarded_hearers _ hl)
  exact
    { bench := ⟨rfl, hw'.order.trans hw.order.symm, hw'.programs.trans hw.programs.symm,
        hw'.checksum.trans hw.checksum.symm⟩
      listeners := hw'.listeners.trans hw.listeners.symm
      guarded := hw.listeners ▸ h.guarded
      tripwires := hw.tripwires
      tripwires' := hw'.tripwires }

/-! ### Histories -/

/-- Events are published one after the other, those after a failure too. -/
def putAll (events : List Event) (store : Store) : Store :=
  events.foldl (fun store event => leftBy (put event) store) store

theorem putAll_append (first second : List Event) (store : Store) :
    store.putAll (first ++ second) = (store.putAll first).putAll second := List.foldl_append

/-- Where none of them fails, the events are published in a row. -/
theorem putAll_of_forM {events : List Event} {last : Store}
    (h : events.forM put store = .ok () last) : store.putAll events = last := by
  induction events generalizing store with
  | nil =>
    cases h
    rfl
  | cons event rest ih =>
    obtain ⟨⟨⟩, middle, hput, hrest⟩ := bind_eq_ok h
    have hleft : leftBy (put event) store = middle := by rw [leftBy, hput]
    show (leftBy (put event) store).putAll rest = last
    rw [hleft]
    exact ih hrest

theorem leftBy_of_upholds {invariant : Store → Prop} {fit : α → Prop} {act : StoreM α}
    (h : Upholds invariant fit act) (hi : invariant store) : invariant (leftBy act store) := by
  obtain ⟨a, last, hact, hlast, -⟩ | ⟨fault, last, hact, hlast⟩ := h store hi <;>
    rw [leftBy, hact] <;> exact hlast

/-- The wiring stays as it is, whatever is published. -/
theorem Rewired.putAll (h : start.Rewired store) (events : List Event) :
    start.Rewired (store.putAll events) := by
  induction events generalizing store with
  | nil => exact h
  | cons event rest ih => exact ih (leftBy_of_upholds (rewired_put event) h)

/-- The fault with which a program ends, if it fails. -/
def faultOf (act : StoreM α) (store : Store) : Option Fault :=
  match act store with
  | .ok _ _ => none
  | .error fault _ => some fault

theorem SameOutcome.leftBy {act : StoreM α}
    (h : SameOutcome Agrees (act store) (act store')) :
    Beside Agrees (leftBy act store) (leftBy act store')
      ∧ faultOf act store' = faultOf act store := by
  obtain ⟨a, last, last', hact, hact', hlast⟩ | ⟨fault, last, last', hact, hact', hlast⟩ := h <;>
    rw [Store.leftBy, Store.leftBy, faultOf, faultOf, hact, hact'] <;> exact ⟨hlast, rfl⟩

theorem Beside.putAll (h : Beside Agrees store store') (events : List Event) :
    Beside Agrees (store.putAll events) (store'.putAll events) := by
  induction events generalizing store store' with
  | nil => exact h
  | cons event rest ih => exact ih (parallel_put event store store' h).leftBy.1

/-- **Saving a trace erases history.**  Let a trace be saved on a store after one history of events
or another, some of them failing perhaps and a step perhaps begun and not ended.  From then on the
slices are the same whatever is published, and so is the fault of every publication. -/
theorem erases_saveSteps (h : start.Fitted) :
    (∀ events last, events.forM put start = .ok () last → start.putAll events = last) ∧
      ∀ history history' steps later,
        (start.putAll (history ++ .saveSteps steps :: later)).bench.slices
            = (start.putAll (history' ++ .saveSteps steps :: later)).bench.slices
          ∧ ∀ event, faultOf (put event) (start.putAll (history ++ .saveSteps steps :: later))
            = faultOf (put event) (start.putAll (history' ++ .saveSteps steps :: later)) := by
  refine ⟨fun _ _ => putAll_of_forM, fun history history' steps later => ?_⟩
  have hsaved :=
    (put_saveSteps h (h.rewired.putAll history') (h.rewired.putAll history) steps).leftBy.1
  have hbeside : Beside Agrees (start.putAll (history' ++ .saveSteps steps :: later))
      (start.putAll (history ++ .saveSteps steps :: later)) := by
    rw [putAll_append, putAll_append]
    exact hsaved.putAll later
  exact ⟨hbeside.bench.slices, fun event => (parallel_put event _ _ hbeside).leftBy.2⟩

/-- A program of one instruction. -/
def instructionOf (jump : Jump) : Program :=
  { map := { name := "One", sources := [⟨5, [0]⟩], entries := [⟨0, 5, 0, jump, 0⟩],
             instructionAt := [(0, 0)] } }

/-- The parts of a session in another order, with a program that goes out of functions, other than
the contract at an address, which goes into one. -/
def abandoned : Store :=
  { bench :=
      { slices := .fresh 3, order := [.recording, .functionDepth, .bindings, .callStack]
        programs := { byAddress := [("0xa1", instructionOf .into)],
                      fallback := some (instructionOf .out) } }
    listeners := [.holdFrame, .followJumps, .releaseFrame, .bindVariables, .trackCalls] }

/-- A step is begun in the contract at the address. -/
def abandonedHistory : List Event := [.saveSteps [default], .call (some "0xa1"), .tick]

theorem abandoned_erases_saveSteps :
    abandoned.Fitted
      ∧ (abandoned.putAll (abandonedHistory ++ [.saveSteps [default]])).bench.held
        = some ⟨some "0xa1", none, 1⟩
      ∧ (abandoned.putAll ([] ++ [.saveSteps [default]])).bench.held = none
      ∧ (abandoned.putAll (abandonedHistory ++ [.saveSteps [default], .tick])).bench.slices
        = (abandoned.putAll ([] ++ [.saveSteps [default], .tick])).bench.slices
      ∧ (abandoned.putAll ([] ++ [.saveSteps [default], .tick])).bench.slices.functionDepth.depth
        = 2 := by
  have hfitted : abandoned.Fitted := ⟨fun name => by cases name <;> decide, .held _, rfl⟩
  exact ⟨hfitted, by decide +kernel, by decide +kernel,
    ((erases_saveSteps hfitted).2 abandonedHistory [] [default] [.tick]).1, by decide +kernel⟩

end Store

end TraceDebugger
