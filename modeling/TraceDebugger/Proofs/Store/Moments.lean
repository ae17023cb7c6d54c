/-
What holds of the slices at every moment.

However publications are nested in one another, and wherever they fail, the slices take the events
in the order in which these are noted, each of them up to the first slice that fails.  So whatever
the listeners do, the slices pass through the moments that the published events make.

* `Slices.moments` — the slices after each of them has taken an event;
* `reduceOne_keeps` — what one slice does when it takes one event;
* `EventDriven` — the programs that change the slices only by publishing; operations on a store are
  (`eventDriven_attemptAll`), whatever listeners and tripwires it has;
* `EventDriven.follows` — the slices are left as the published events make them;
* `moments_hold` — the main result.
-/
import TraceDebugger.Proofs.Store.Delivery
import TraceDebugger.Proofs.Advance.Publication

namespace TraceDebugger

/-! ### Frames -/

namespace CallStack

/-- The frames are numbered from the outermost one, which has depth one. -/
def Numbered (stack : CallStack) : Prop :=
  ∀ k frame, stack.frames.reverse[k]? = some frame → frame.depth = k + 1

variable {stack : CallStack}

theorem Numbered.push (h : stack.Numbered) (address binary : Option String) :
    (stack.push address binary).Numbered := by
  intro k frame hframe
  rw [CallStack.push, List.reverse_cons, List.getElem?_append, List.length_reverse] at hframe
  split at hframe
  · exact h k frame hframe
  · -- the new frame is the innermost one
    obtain ⟨hk, rfl⟩ := List.getElem?_eq_some_iff.mp hframe
    simp only [List.length_singleton] at hk
    simp only [List.getElem_singleton, CallStack.depth]
    omega

theorem Numbered.pop (h : stack.Numbered) : stack.pop.Numbered := by
  intro k frame hframe
  cases hframes : stack.frames with
  | nil =>
    rw [CallStack.pop, hframes] at hframe
    cases hframe
  | cons innermost rest =>
    rw [CallStack.pop, hframes] at hframe
    have hk : k < rest.reverse.length := (List.getElem?_eq_some_iff.mp hframe).1
    refine h k frame ?_
    rw [hframes, List.reverse_cons, List.getElem?_append_left hk]
    exact hframe

/-- The frames stay numbered whatever event comes. -/
theorem Numbered.reduce {event : Event} {stack' : CallStack} (h : stack.Numbered)
    (hr : stack.reduce event = .ok stack') : stack'.Numbered := by
  rw [CallStack.reduce] at hr
  split at hr
  · obtain rfl := Except.ok.inj hr
    exact nofun
  · obtain ⟨address, -, rfl⟩ := exists_of_map_eq_ok hr
    exact h.push _ _
  · obtain ⟨binary, -, rfl⟩ := exists_of_map_eq_ok hr
    exact h.push _ _
  · obtain rfl := Except.ok.inj hr
    exact h.pop
  · obtain rfl := Except.ok.inj hr
    exact h

end CallStack

/-! ### Reactions -/

namespace Workbench

variable {bench next other : Workbench}

/-- Two workbenches with the same slices, which take events in the same order, and with the same
programs. -/
structure Agrees (bench other : Workbench) : Prop where
  slices : other.slices = bench.slices
  order : other.order = bench.order
  programs : other.programs = bench.programs
  checksum : other.checksum = bench.checksum

theorem Agrees.symm (h : bench.Agrees other) : other.Agrees bench :=
  ⟨h.slices.symm, h.order.symm, h.programs.symm, h.checksum.symm⟩

theorem Agrees.trans (h : bench.Agrees next) (h' : next.Agrees other) : bench.Agrees other :=
  ⟨h'.slices.trans h.slices, h'.order.trans h.order, h'.programs.trans h.programs,
    h'.checksum.trans h.checksum⟩

/-- The frame that is held once a listener has reacted. -/
def heldBy (bench : Workbench) : Listener → Option Frame
  | .holdFrame => some bench.currentCall
  | .releaseFrame => none
  | _ => bench.held

/-- What a listener answers to an event. -/
def answerBy (event : Event) (bench : Workbench) : Listener → Except Fault (List Event)
  | .relay _ _ answer => .ok (answer event)
  | listener => bench.answerOf listener

/-- A reaction changes only which frame is held, and what is noted and logged. -/
theorem react_eq (event : Event) (bench : Workbench) (listener : Listener) :
    ∃ heard lines, bench.react event listener
      = ({ bench with held := bench.heldBy listener, heard, lines },
        bench.answerBy event listener) := by
  cases listener with
  | trackCalls =>
    obtain ⟨lines, htrack⟩ := bench.trackCalls_eq
    exact ⟨bench.heard, lines, htrack⟩
  | bindVariables =>
    obtain ⟨lines, hbind⟩ := bench.bindVariables_eq
    exact ⟨bench.heard, lines, hbind⟩
  | reportBusy =>
    rw [react, reportBusy]
    split <;> exact ⟨_, _, rfl⟩
  | _ => exact ⟨_, _, rfl⟩

theorem agrees_react (event : Event) (bench : Workbench) (listener : Listener) :
    bench.Agrees (bench.react event listener).1 := by
  obtain ⟨heard, lines, hreact⟩ := bench.react_eq event listener
  rw [hreact]
  exact ⟨rfl, rfl, rfl, rfl⟩

end Workbench

/-! ### Moments -/

/-- A slice has taken an event, or failed to: the slices as they are then. -/
structure Moment where
  event : Event
  slices : Slices

namespace Slices

variable {slices next : Slices} {event : Event} {order : List SliceName}

/-- The slices before any event, with a depth of function calls. -/
def fresh (initial : Int) : Slices := { functionDepth := ⟨initial, initial⟩ }

/-- The slices after each of the named ones has taken an event, up to the first that fails. -/
def stages (event : Event) (slices : Slices) : List SliceName → List Slices
  | [] => []
  | name :: rest =>
    match slices.reduceOne event name with
    | (next, none) => next :: next.stages event rest
    | (next, some _) => [next]

/-- The moments at which the slices take some events one after the other. -/
def moments (order : List SliceName) : Slices → List Event → List Moment
  | _, [] => []
  | slices, event :: rest =>
    (slices.stages event order).map (Moment.mk event)
      ++ moments order (slices.reduce event order).1 rest

/-- The slices at the last of some moments, or before them if there is none. -/
def atLast (slices : Slices) (moments : List Moment) : Slices :=
  (moments.getLast?.map Moment.slices).getD slices

theorem atLast_append (slices : Slices) (first second : List Moment) :
    slices.atLast (first ++ second) = (slices.atLast first).atLast second := by
  rw [atLast, List.getLast?_append]
  cases hsecond : second.getLast? with
  | none => rw [Option.none_or, atLast, atLast, hsecond, Option.map_none, Option.getD_none]
  | some moment =>
    rw [Option.some_or, atLast, hsecond]
    rfl

theorem atLast_cons (slices next : Slices) (event : Event) (rest : List Moment) :
    slices.atLast (⟨event, next⟩ :: rest) = next.atLast rest :=
  slices.atLast_append [⟨event, next⟩] rest

theorem atLast_stages (event : Event) (order : List SliceName) : ∀ slices : Slices,
    slices.atLast ((slices.stages event order).map (Moment.mk event))
      = (slices.reduce event order).1 := by
  induction order with
  | nil => exact fun _ => rfl
  | cons name rest ih =>
    intro slices
    rw [stages, reduce]
    cases hone : slices.reduceOne event name with
    | mk next fault =>
      cases fault with
      | none => exact (slices.atLast_cons next event _).trans (ih next)
      | some fault => rfl

theorem moments_append (first second : List Event) : ∀ slices : Slices,
    slices.moments order (first ++ second)
      = slices.moments order first
        ++ (slices.atLast (slices.moments order first)).moments order second := by
  induction first with
  | nil => exact fun _ => rfl
  | cons event rest ih =>
    intro slices
    rw [List.cons_append, moments, moments, ih, atLast_append, atLast_stages, List.append_assoc]

/-! ### What a slice does -/

/-- The cursor is in the trace, the frames are numbered from the outermost one, and no depth of
function calls is negative. -/
structure Coherent (slices : Slices) : Prop where
  cursor : slices.recording.cursor ≤ slices.recording.steps.length
  frames : slices.callStack.Numbered
  initial : 0 ≤ slices.functionDepth.initial
  depth : 0 ≤ slices.functionDepth.depth

theorem coherent_fresh {initial : Int} (h : 0 ≤ initial) : (fresh initial).Coherent :=
  ⟨Nat.le_refl 0, nofun, h, h⟩

/-- How one slice takes an event: what is coherent stays so, the cursor goes back only to the start
of a trace that is saved, and only then there are other steps; function calls go on starting where
they did. -/
structure Keeps (event : Event) (slices next : Slices) : Prop where
  coherent : slices.Coherent → next.Coherent
  cursor : slices.recording.cursor ≤ next.recording.cursor ∨
    event.kind = .saveSteps ∧ next.recording.cursor = 0
  steps : event.kind ≠ .saveSteps → next.recording.steps = slices.recording.steps
  initial : next.functionDepth.initial = slices.functionDepth.initial

theorem keeps_refl (event : Event) (slices : Slices) : slices.Keeps event slices :=
  ⟨id, .inl (Nat.le_refl _), fun _ => rfl, rfl⟩

theorem reduce_recording_keeps {recording recording' : Recording}
    (h : recording.reduce event = .ok recording') :
    (recording.cursor ≤ recording'.cursor ∨ event.kind = .saveSteps ∧ recording'.cursor = 0) ∧
      (event.kind ≠ .saveSteps → recording'.steps = recording.steps) := by
  rw [Recording.reduce] at h
  split at h
  · rename_i hkind
    obtain ⟨steps, -, rfl⟩ := exists_of_map_eq_ok h
    exact ⟨.inr ⟨hkind, rfl⟩, fun hne => absurd hkind hne⟩
  · obtain ⟨addresses, -, rfl⟩ := exists_of_map_eq_ok h
    exact ⟨.inl (Nat.le_refl _), fun _ => rfl⟩
  · obtain rfl := Except.ok.inj h
    rw [Recording.forward]
    split
    · exact ⟨.inl (Nat.le_succ _), fun _ => rfl⟩
    · exact ⟨.inl (Nat.le_refl _), fun _ => rfl⟩
  · obtain rfl := Except.ok.inj h
    exact ⟨.inl recording.cursor_le, fun _ => rfl⟩
  · obtain rfl := Except.ok.inj h
    exact ⟨.inl (Nat.le_refl _), fun _ => rfl⟩

theorem reduce_functionDepth_keeps {state state' : FunctionDepth}
    (h : state.reduce event = .ok state') : state'.initial = state.initial ∧
      (0 ≤ state.initial → 0 ≤ state.depth → 0 ≤ state'.depth) := by
  rw [FunctionDepth.reduce] at h
  split at h
  · obtain rfl := Except.ok.inj h
    exact ⟨rfl, fun hinitial _ => hinitial⟩
  · obtain ⟨delta, -, rfl⟩ := exists_of_map_eq_ok h
    exact ⟨rfl, fun _ _ => Int.le_max_left 0 _⟩
  · obtain rfl := Except.ok.inj h
    exact ⟨rfl, fun _ hdepth => hdepth⟩

/-- Whichever slice takes an event, and whether it fails or not. -/
theorem reduceOne_keeps (event : Event) (slices : Slices) (name : SliceName) :
    slices.Keeps event (slices.reduceOne event name).1 := by
  -- an event that fails leaves its slice as it was
  cases name with
  | recording =>
    rw [reduceOne]
    cases hr : slices.recording.reduce event with
    | error fault => exact keeps_refl event slices
    | ok recording =>
      obtain ⟨hcursor, hsteps⟩ := reduce_recording_keeps hr
      exact ⟨fun h => { h with cursor := recording.cursor_le }, hcursor, hsteps, rfl⟩
  | callStack =>
    rw [reduceOne]
    cases hr : slices.callStack.reduce event with
    | error fault => exact keeps_refl event slices
    | ok stack =>
      exact ⟨fun h => { h with frames := h.frames.reduce hr },
        .inl (Nat.le_refl _), fun _ => rfl, rfl⟩
  | bindings =>
    exact ⟨fun h => { h with }, .inl (Nat.le_refl _), fun _ => rfl, rfl⟩
  | functionDepth =>
    rw [reduceOne]
    cases hr : slices.functionDepth.reduce event with
    | error fault => exact keeps_refl event slices
    | ok state =>
      obtain ⟨hinitial, hdepth⟩ := reduce_functionDepth_keeps hr
      exact ⟨fun h => { h with initial := hinitial ▸ h.initial, depth := hdepth h.initial h.depth },
        .inl (Nat.le_refl _), fun _ => rfl, hinitial⟩

/-! ### What the slices do -/

/-- At each of some moments a slice has taken an event. -/
inductive Course : Slices → List Moment → Prop
  | nil {slices : Slices} : Course slices []
  | cons {slices next : Slices} {event : Event} {rest : List Moment}
    (h : slices.Keeps event next) (hrest : Course next rest) : Course slices (⟨event, next⟩ :: rest)

namespace Course

variable {moments later : List Moment}

theorem append (h : Course slices moments) (hl : Course (slices.atLast moments) later) :
    Course slices (moments ++ later) := by
  induction h with
  | nil => exact hl
  | cons h _ ih =>
    refine .cons h (ih ?_)
    rwa [atLast_cons] at hl

theorem coherent (h : Course slices moments) (hc : slices.Coherent) :
    ∀ moment ∈ moments, moment.slices.Coherent := by
  induction h with
  | nil => exact fun _ hm => absurd hm List.not_mem_nil
  | cons h _ ih =>
    intro moment hm
    rcases List.mem_cons.mp hm with rfl | hm
    · exact h.coherent hc
    · exact ih (h.coherent hc) moment hm

/-- From one moment to the next the cursor does not go back, other than to the start. -/
theorem cursor (h : Course slices moments) :
    moments.IsChain fun earlier later =>
      earlier.slices.recording.cursor ≤ later.slices.recording.cursor ∨
        later.event.kind = .saveSteps ∧ later.slices.recording.cursor = 0 := by
  induction h with
  | nil => exact .nil
  | cons _ hrest ih =>
    cases hrest with
    | nil => exact .singleton _
    | cons h _ => exact .cons_cons h.cursor ih

theorem initial (h : Course slices moments) :
    (slices.atLast moments).functionDepth.initial = slices.functionDepth.initial := by
  induction h with
  | nil => rfl
  | cons h _ ih => rw [atLast_cons, ih, h.initial]

/-- As long as no trace is saved there are the steps that there were. -/
theorem steps (h : Course slices moments) {before after : List Moment} {moment : Moment}
    (hm : moments = before ++ moment :: after)
    (hb : ∀ earlier ∈ before ++ [moment], earlier.event.kind ≠ .saveSteps) :
    moment.slices.recording.steps = slices.recording.steps := by
  induction h generalizing before with
  | nil => exact absurd hm.symm (List.append_ne_nil_of_right_ne_nil _ (List.cons_ne_nil _ _))
  | cons h _ ih =>
    cases before with
    | nil =>
      obtain ⟨rfl, -⟩ := List.cons.inj hm
      exact h.steps (hb _ List.mem_cons_self)
    | cons first before =>
      obtain ⟨rfl, hrest⟩ := List.cons.inj hm
      rw [ih hrest fun earlier he => hb earlier (List.mem_cons_of_mem _ he)]
      exact h.steps (hb _ List.mem_cons_self)

end Course

theorem course_stages (event : Event) (order : List SliceName) : ∀ slices : Slices,
    Course slices ((slices.stages event order).map (Moment.mk event)) := by
  induction order with
  | nil => exact fun _ => .nil
  | cons name rest ih =>
    intro slices
    have hkeeps : slices.Keeps event (slices.reduceOne event name).1 :=
      reduceOne_keeps event slices name
    rw [stages]
    split
    · rename_i next hone
      rw [hone] at hkeeps
      exact .cons hkeeps (ih next)
    · rename_i next fault hone
      rw [hone] at hkeeps
      exact .cons hkeeps .nil

/-- **The moments that events make are a course of the slices.** -/
theorem course_moments (order : List SliceName) (events : List Event) : ∀ slices : Slices,
    Course slices (slices.moments order events) := by
  induction events with
  | nil => exact fun _ => .nil
  | cons event rest ih =>
    intro slices
    rw [moments]
    refine (course_stages event order slices).append ?_
    rw [atLast_stages]
    exact ih _

end Slices

namespace Store

/-! ### Programs that publish -/

section

variable {α : Type} {store middle last : Store} {first second : List Event}

/-- The store that a program leaves, whether it fails or not. -/
def leftBy (act : StoreM α) (store : Store) : Store :=
  match act store with
  | .ok _ last => last
  | .error _ last => last

/-- Nothing has been published, and the slices are as they were. -/
structure Still (store last : Store) : Prop where
  published : last.published = store.published
  order : last.bench.order = store.bench.order
  slices : last.bench.slices = store.bench.slices

/-- Some events have been published, and the slices are as these have made them. -/
structure Follows (store last : Store) (events : List Event) : Prop where
  published : last.published = events.reverse ++ store.published
  order : last.bench.order = store.bench.order
  slices : last.bench.slices = store.bench.slices.atLast
    (store.bench.slices.moments store.bench.order events)

theorem Still.follows (h : store.Still last) : store.Follows last [] :=
  ⟨h.published, h.order, h.slices⟩

theorem Follows.trans (h : store.Follows middle first) (h' : middle.Follows last second) :
    store.Follows last (first ++ second) := by
  refine ⟨?_, h'.order.trans h.order, ?_⟩
  · rw [h'.published, h.published, List.reverse_append, List.append_assoc]
  · rw [h'.slices, h.order, h.slices, Slices.moments_append, Slices.atLast_append]

/-- An event is noted and taken in by the slices. -/
def takeNoted (event : Event) : StoreM Unit := do
  modify (note event)
  takeIn event

/-- The slices take an event or fail to; what has been done stays. -/
theorem leftBy_takeIn (event : Event) (store : Store) :
    leftBy (takeIn event) store = { store with bench := (store.bench.reduce event).1 } := by
  rw [leftBy, takeIn]
  rcases store.bench.reduce event with ⟨bench, fault | fault⟩ <;> rfl

theorem follows_takeNoted (event : Event) (store : Store) :
    store.Follows (leftBy (takeNoted event) store) [event] := by
  have hleft : leftBy (takeNoted event) store = leftBy (takeIn event) (store.note event) := rfl
  have hlast : store.bench.slices.atLast (store.bench.slices.moments store.bench.order [event])
      = (store.bench.slices.reduce event store.bench.order).1 := by
    rw [Slices.moments, Slices.moments, List.append_nil, Slices.atLast_stages]
  rw [hleft, leftBy_takeIn]
  exact ⟨rfl, rfl, hlast.symm⟩

/-- An event that the slices have taken is heard and delivered. -/
def answered (depth : Nat) (event : Event) : StoreM Unit := do
  (hearers event.kind (← get)).forM fun listener => do
    (← hear event listener).forM (putWithin depth)
  (← get).tripwires.forM fun wire => do
    (← trip event wire).forM (putWithin depth)
  modify (deliver event)

theorem putWithin_eq_bind (depth : Nat) (event : Event) :
    putWithin (depth + 1) event = takeNoted event >>= fun _ => answered depth event := by
  rw [takeNoted, bind_assoc]
  rfl

/-- Programs that change the slices only by publishing events: what is done before, between and
after publications leaves the slices alone, and failures may be caught. -/
inductive EventDriven : {α : Type} → StoreM α → Prop
  | still {α : Type} {act : StoreM α} (h : ∀ store, Still store (leftBy act store)) :
    EventDriven act
  | takeNoted (event : Event) : EventDriven (takeNoted event)
  | bind {α β : Type} {act : StoreM α} {next : α → StoreM β} (h : EventDriven act)
    (hnext : ∀ a, EventDriven (next a)) : EventDriven (act >>= next)
  | rescue {α : Type} {act : StoreM α} {handler : Fault → StoreM α} (h : EventDriven act)
    (hhandler : ∀ fault, EventDriven (handler fault)) : EventDriven (tryCatch act handler)

/-- **The slices are left as the published events make them**, whatever else a program does. -/
theorem EventDriven.follows {act : StoreM α} (h : EventDriven act) (store : Store) :
    ∃ events, store.Follows (leftBy act store) events := by
  -- what a program has published before it fails counts as well
  induction h generalizing store with
  | still h => exact ⟨[], (h store).follows⟩
  | takeNoted event => exact ⟨[event], follows_takeNoted event store⟩
  | @bind α β act next _ _ ih ihnext =>
    obtain ⟨first, hfirst⟩ := ih store
    cases hact : act store with
    | ok a middle =>
      have hleft : leftBy (act >>= next) store = leftBy (next a) middle := by
        rw [leftBy, leftBy, show (act >>= next) store = next a middle from run_bind_ok hact]
      obtain ⟨second, hsecond⟩ := ihnext a middle
      rw [leftBy, hact] at hfirst
      exact ⟨first ++ second, hleft ▸ hfirst.trans hsecond⟩
    | error fault last =>
      have hleft : leftBy (act >>= next) store = last := by
        rw [leftBy, show (act >>= next) store = .error fault last from run_bind_error hact]
      rw [leftBy, hact] at hfirst
      exact ⟨first, hleft ▸ hfirst⟩
  | @rescue α act handler _ _ ih ihhandler =>
    obtain ⟨first, hfirst⟩ := ih store
    have hrun : tryCatch act handler store = match act store with
      | .ok a last => .ok a last
      | .error fault last => handler fault last := by
      show EStateM.tryCatch act handler store = _
      rw [EStateM.tryCatch]
      cases act store <;> rfl
    cases hact : act store with
    | ok a last =>
      rw [hact] at hrun
      rw [leftBy, hact] at hfirst
      exact ⟨first, by rw [leftBy, hrun]; exact hfirst⟩
    | error fault middle =>
      rw [hact] at hrun
      rw [leftBy, hact] at hfirst
      obtain ⟨second, hsecond⟩ := ihhandler fault middle
      exact ⟨first ++ second, by rw [leftBy, hrun]; exact hfirst.trans hsecond⟩

theorem eventDriven_pure (a : α) : EventDriven (pure a : StoreM α) :=
  .still fun _ => ⟨rfl, rfl, rfl⟩

theorem eventDriven_modify {change : Store → Store} (h : ∀ store, Still store (change store)) :
    EventDriven (modify change : StoreM PUnit) := .still h

/-- What follows may look at the store. -/
theorem eventDriven_get {next : Store → StoreM α} (h : ∀ store, EventDriven (next store)) :
    EventDriven (get >>= next) := by
  have hget : EventDriven (get : StoreM Store) := .still fun _ => ⟨rfl, rfl, rfl⟩
  exact hget.bind h

theorem eventDriven_forM {β : Type} {act : β → StoreM Unit} (h : ∀ b, EventDriven (act b))
    (l : List β) : EventDriven (l.forM act) := by
  induction l with
  | nil => exact eventDriven_pure ()
  | cons b rest ih => exact (h b).bind fun _ => ih

/-- A listener changes no slice by itself: it answers. -/
theorem eventDriven_hear (event : Event) (listener : Listener) :
    EventDriven (hear event listener) := by
  refine .still fun store => ?_
  have hagrees := store.bench.agrees_react event listener
  rw [leftBy, hear]
  cases hreact : store.bench.react event listener with
  | mk bench answer =>
    rw [hreact] at hagrees
    cases answer <;> exact ⟨rfl, hagrees.order, hagrees.slices⟩

theorem eventDriven_trip (event : Event) (wire : Tripwire) : EventDriven (trip event wire) := by
  refine .still fun store => ?_
  rw [leftBy, trip]
  split
  · rename_i _ last h
    split at h <;> cases h <;> exact ⟨rfl, rfl, rfl⟩
  · rename_i _ last h
    split at h <;> cases h

theorem eventDriven_deliver (event : Event) : EventDriven (modify (deliver event) : StoreM PUnit) :=
  eventDriven_modify fun _ => ⟨rfl, rfl, rfl⟩

/-- A publication changes the slices by publishing only, whatever answers it gets and however deep
it goes. -/
theorem eventDriven_putWithin (depth : Nat) : ∀ event, EventDriven (putWithin depth event) := by
  induction depth with
  | zero => exact fun event => .still fun _ => ⟨rfl, rfl, rfl⟩
  | succ depth ih =>
    intro event
    rw [putWithin_eq_bind]
    refine .bind (.takeNoted event) fun _ => eventDriven_get fun store => ?_
    refine .bind (eventDriven_forM (fun listener => ?_) _) fun _ => eventDriven_get fun heard => ?_
    · exact .bind (eventDriven_hear event listener) fun events => eventDriven_forM ih events
    · refine .bind (eventDriven_forM (fun wire => ?_) _) fun _ => eventDriven_deliver event
      exact .bind (eventDriven_trip event wire) fun events => eventDriven_forM ih events

theorem Operation.eventDriven_run (limit : Store → Nat) (operation : Operation) :
    EventDriven (operation.run limit) := by
  cases operation with
  | put event => exact eventDriven_get fun store => eventDriven_putWithin (limit store) event
  | _ => exact eventDriven_modify fun _ => ⟨rfl, rfl, rfl⟩

/-- Operations are carried out one after the other, those after a failure too. -/
def attemptAll (limit : Store → Nat) (operations : List Operation) : StoreM Unit :=
  operations.forM fun operation => tryCatch (operation.run limit) fun _ => pure ()

theorem eventDriven_attemptAll (limit : Store → Nat) (operations : List Operation) :
    EventDriven (attemptAll limit operations) :=
  eventDriven_forM (fun operation =>
    (operation.eventDriven_run limit).rescue fun _ => eventDriven_pure ()) operations

/-! ### Every moment -/

/-- **What holds of the slices at every moment.**  From fresh slices, let a program publish any
events, as operations on a store do, whatever answers they get and whether they fail or not.  The
events take the slices through moments, one for each slice that takes an event.  At each of them the
cursor is in the trace, the frames are numbered from the outermost one and the depth of function
calls is not negative; before a trace is saved there are no steps; and the cursor goes back only to
the start of a trace that is saved. -/
theorem moments_hold {initial : Int} {store : Store}
    (hfresh : store.bench.slices = .fresh initial) (hinitial : 0 ≤ initial) :
    (∀ limit operations, EventDriven (attemptAll limit operations)) ∧
      ∀ {α : Type} {act : StoreM α}, EventDriven act → ∃ events moments,
        (leftBy act store).published = events.reverse ++ store.published
          ∧ moments = store.bench.slices.moments store.bench.order events
          ∧ (leftBy act store).bench.slices = store.bench.slices.atLast moments
          ∧ (∀ moment ∈ moments,
            moment.slices.recording.cursor ≤ moment.slices.recording.steps.length
              ∧ moment.slices.callStack.Numbered ∧ 0 ≤ moment.slices.functionDepth.depth)
          ∧ (∀ before moment after, moments = before ++ moment :: after →
            (∀ earlier ∈ before ++ [moment], earlier.event.kind ≠ .saveSteps) →
            moment.slices.recording.steps = [])
          ∧ moments.IsChain fun earlier later =>
            earlier.slices.recording.cursor ≤ later.slices.recording.cursor ∨
              later.event.kind = .saveSteps ∧ later.slices.recording.cursor = 0 := by
  refine ⟨eventDriven_attemptAll, fun hact => ?_⟩
  obtain ⟨events, hfollows⟩ := hact.follows store
  -- the published events alone tell the moments, so what each slice keeps holds along the way
  have hcourse := Slices.course_moments store.bench.order events store.bench.slices
  have hcoherent : store.bench.slices.Coherent := hfresh ▸ Slices.coherent_fresh hinitial
  refine ⟨events, _, hfollows.published, rfl, hfollows.slices, ?_, ?_, hcourse.cursor⟩
  · intro moment hm
    have h := hcourse.coherent hcoherent moment hm
    exact ⟨h.cursor, h.frames, h.depth⟩
  · intro before moment after hmoments hbefore
    have hsteps : store.bench.slices.recording.steps = [] := by
      rw [hfresh]
      rfl
    rw [hcourse.steps hmoments hbefore, hsteps]

end

/-- A store in which a step moves the cursor and causes a call, which leaves functions, and then a
deployment without code, which the call stack cannot take. -/
def restless : Store :=
  { bench := { slices := .fresh 1, order := [.callStack, .functionDepth, .recording, .bindings] }
    listeners := [.relay "step" [.tick] fun _ => [.tock, .call none, ⟨.create, {}⟩, .returnCall],
      .relay "call" [.call] fun _ => [.jump (-5)]] }

/-- A trace is saved between steps, and then one without steps, at which the recording fails when
the call stack is empty already. -/
def restlessOperations : List Operation :=
  [.put .tock, .put .tick, .put (.saveSteps [default, default]), .put .tick, .put ⟨.saveSteps, {}⟩,
    .put .endOfTrace]

theorem restless_moments_hold :
    restless.bench.slices = .fresh 1 ∧ (0 : Int) ≤ 1
      ∧ EventDriven (attemptAll depthLimit restlessOperations)
      ∧ ∃ events moments,
        (leftBy (attemptAll depthLimit restlessOperations) restless).published = events.reverse
          ∧ events.map (·.kind) = [.tock, .tick, .tock, .call, .jump, .create, .saveSteps,
            .tick, .tock, .call, .jump, .create, .saveSteps, .endOfTrace]
          ∧ moments = restless.bench.slices.moments restless.bench.order events
          ∧ ∀ moment ∈ moments,
            moment.slices.recording.cursor ≤ moment.slices.recording.steps.length
              ∧ moment.slices.callStack.Numbered ∧ 0 ≤ moment.slices.functionDepth.depth := by
  have hfresh : restless.bench.slices = .fresh 1 := rfl
  have hinitial : (0 : Int) ≤ 1 := by decide
  obtain ⟨hattempts, hall⟩ := moments_hold hfresh hinitial
  have hact := hattempts depthLimit restlessOperations
  obtain ⟨events, moments, hpublished, hmoments, -, hcoherent, -, -⟩ := hall hact
  -- the kinds can be compared by evaluation, and the events themselves need not be spelt out
  have hkinds : ((leftBy (attemptAll depthLimit restlessOperations) restless).published.map
      (·.kind)).reverse = [.tock, .tick, .tock, .call, .jump, .create, .saveSteps,
        .tick, .tock, .call, .jump, .create, .saveSteps, .endOfTrace] := by decide +kernel
  have hevents : (leftBy (attemptAll depthLimit restlessOperations) restless).published
      = events.reverse := hpublished.trans (List.append_nil _)
  rw [hevents, ← List.map_reverse, List.reverse_reverse] at hkinds
  exact ⟨hfresh, hinitial, hact, events, moments, hevents, hkinds, hmoments, hcoherent⟩

end Store

end TraceDebugger
