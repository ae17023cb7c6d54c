/-
The spelling of addresses does not matter.

Of two workbenches that differ in the spelling of addresses only (`Workbench.Alike`), one with
checksums and one without, all readings of a step are the same: an address is looked up and compared
in lower case.  So the same commands begin in the same way in both, pass the same steps and end at
the same place, and the two workbenches still differ in the spelling of addresses only.

* `Breakpoint.anyHit_alike` — where addresses are compared;
* `Alike.exists_consequences` — what follows from a step in both;
* `Alike.exists_passage` — the events of a step in both, and both after it;
* `Alike.runs`, `Alike.processable` — both after a pursuit.
-/
import TraceDebugger.Proofs.Advance.Course
import TraceDebugger.Proofs.Execution.Checksum
import TraceDebugger.Proofs.Program.Lookups

namespace TraceDebugger

/-! ### Comparisons -/

/-- Two frames differ in the spelling of their address only. -/
structure Frame.Alike (frame other : Frame) : Prop where
  address : Option.Rel Text.Alike frame.address other.address
  binary : other.binary = frame.binary
  depth : other.depth = frame.depth

namespace Breakpoint

theorem sameText_alike {first second : Option String} (h : Option.Rel Text.Alike first second)
    (text : Option String) : sameText text first = sameText text second := by
  cases h with
  | none => rfl
  | some h =>
    cases text with
    | none => rfl
    | some text => rw [sameText, sameText, h]

/-- Breakpoints are hit in whichever spelling of an address. -/
theorem anyHit_alike {frame other : Frame} (h : frame.Alike other) (breakpoints : List Breakpoint)
    (range : Option SourceRange) (node : Option NodeId) :
    anyHit breakpoints other range node = anyHit breakpoints frame range node := by
  have hsite (breakpoint : Breakpoint) :
      breakpoint.atCallSite other = breakpoint.atCallSite frame := by
    rw [atCallSite, atCallSite, sameText_alike h.address, h.binary]
  simp only [anyHit, isHit, hsite]

end Breakpoint

/-! ### Events and slices -/

/-- The cursor moves by one, unless it is at the end. -/
theorem Recording.forward_cases (recording : Recording) :
    recording.forward.steps = recording.steps ∧ recording.forward.loaded = recording.loaded ∧
      recording.forward.addresses = recording.addresses ∧
      recording.forward.cursor = min (recording.cursor + 1) recording.steps.length := by
  have hle := recording.cursor_le
  rw [forward]
  split
  case isTrue hlt => exact ⟨rfl, rfl, rfl, (Nat.min_eq_left hlt).symm⟩
  case isFalse hlt => exact ⟨rfl, rfl, rfl, by omega⟩

/-- Two events differ in the spelling of addresses only. -/
inductive Event.Alike : Event → Event → Prop
  | refl (event : Event) : Alike event event
  | call {address address' : Option String} (h : Option.Rel Text.Alike address address') :
    Alike (.call address) (.call address')
  | receiveAddresses {addresses addresses' : List String}
      (h : List.Forall₂ Text.Alike addresses addresses') :
    Alike (.receiveAddresses addresses) (.receiveAddresses addresses')

theorem Event.forall₂_alike_refl (events : List Event) : List.Forall₂ Event.Alike events events :=
  List.forall₂_same.mpr fun event _ => .refl event

namespace Slices

/-- The slices differ in the spelling of addresses only. -/
structure Alike (slices other : Slices) : Prop where
  steps : other.recording.steps = slices.recording.steps
  cursor : other.recording.cursor = slices.recording.cursor
  loaded : other.recording.loaded = slices.recording.loaded
  addresses : List.Forall₂ Text.Alike slices.recording.addresses other.recording.addresses
  frames : List.Forall₂ Frame.Alike slices.callStack.frames other.callStack.frames
  bindings : other.bindings = slices.bindings
  functionDepth : other.functionDepth = slices.functionDepth

variable {slices other : Slices}

theorem Alike.current (h : slices.Alike other) :
    slices.callStack.current.Alike other.callStack.current := by
  have hframes := h.frames
  rw [CallStack.current, CallStack.current]
  generalize slices.callStack.frames = frames at hframes ⊢
  generalize other.callStack.frames = frames' at hframes ⊢
  cases hframes with
  | nil => exact ⟨.none, rfl, rfl⟩
  | cons hframe _ => exact hframe

theorem Alike.push (h : slices.Alike other) {address address' : Option String}
    (ha : Option.Rel Text.Alike address address') (binary : Option String) :
    List.Forall₂ Frame.Alike (slices.callStack.push address binary).frames
      (other.callStack.push address' binary).frames := by
  have hdepth : other.callStack.depth = slices.callStack.depth := h.frames.length_eq.symm
  exact .cons ⟨ha, rfl, congrArg (· + 1) hdepth⟩ h.frames

theorem Alike.pop (h : slices.Alike other) :
    List.Forall₂ Frame.Alike slices.callStack.pop.frames other.callStack.pop.frames := by
  rw [CallStack.pop, CallStack.pop, ← List.drop_one, ← List.drop_one]
  exact List.forall₂_drop 1 h.frames

/-- An event that follows from a step is taken by both in the same way. -/
theorem Alike.after_derived (h : slices.Alike other) {event event' : Event} (hd : event.Derived)
    (he : event.Alike event') : (slices.after [event]).Alike (other.after [event']) := by
  have hcall {address address' : Option String} (ha : Option.Rel Text.Alike address address') :
      (slices.after [.call address]).Alike (other.after [.call address']) :=
    ⟨h.steps, h.cursor, h.loaded, h.addresses, h.push ha none, h.bindings, h.functionDepth⟩
  -- the spelling of an address matters to calls only, which put it on the call stack
  cases he with
  | refl =>
    cases hd with
    | jump delta =>
      refine ⟨h.steps, h.cursor, h.loaded, h.addresses, h.frames, h.bindings, ?_⟩
      show FunctionDepth.mk _ (max 0 (other.functionDepth.depth + delta)) = _
      rw [h.functionDepth]
      rfl
    | call address => exact hcall (Text.alike_refl_option address)
    | create binary =>
      exact ⟨h.steps, h.cursor, h.loaded, h.addresses, h.push .none binary, h.bindings,
        h.functionDepth⟩
    | returnCall =>
      exact ⟨h.steps, h.cursor, h.loaded, h.addresses, h.pop, h.bindings, h.functionDepth⟩
    | assign treeId locations =>
      refine ⟨h.steps, h.cursor, h.loaded, h.addresses, h.frames, ?_, h.functionDepth⟩
      show other.bindings.assign treeId locations = slices.bindings.assign treeId locations
      rw [h.bindings]
  | call ha => exact hcall ha
  | receiveAddresses _ => cases hd

theorem Alike.after (h : slices.Alike other) {events events' : List Event}
    (hd : ∀ event ∈ events, event.Derived) (he : List.Forall₂ Event.Alike events events') :
    (slices.after events).Alike (other.after events') := by
  induction he generalizing slices other with
  | nil => exact h
  | @cons event event' events events' hevent _ ih =>
    rw [after_cons, after_cons other]
    exact ih (h.after_derived (hd event List.mem_cons_self) hevent)
      fun event he => hd event (List.mem_cons_of_mem _ he)

theorem after_tick (slices : Slices) (events : List Event) :
    slices.after (.tick :: events) = slices.after events := rfl

theorem Alike.after_tock (h : slices.Alike other) :
    (slices.after [.tock]).Alike (other.after [.tock]) := by
  obtain ⟨hsteps, hloaded, haddresses, hcursor⟩ := slices.recording.forward_cases
  obtain ⟨hsteps', hloaded', haddresses', hcursor'⟩ := other.recording.forward_cases
  rw [Slices.after_tock, Slices.after_tock]
  refine ⟨?_, ?_, ?_, ?_, h.frames, h.bindings, h.functionDepth⟩
  · exact hsteps'.trans (h.steps.trans hsteps.symm)
  · dsimp only
    rw [hcursor, hcursor', h.cursor, h.steps]
  · exact hloaded'.trans (h.loaded.trans hloaded.symm)
  · dsimp only
    rw [haddresses, haddresses']
    exact h.addresses

theorem Alike.after_endOfTrace (h : slices.Alike other) :
    (slices.after [.endOfTrace]).Alike (other.after [.endOfTrace]) :=
  ⟨h.steps, congrArg List.length h.steps, h.loaded, h.addresses, h.frames, h.bindings,
    h.functionDepth⟩

end Slices

namespace Workbench

/-- The workbenches differ in the spelling of addresses only: the second one spells them with
checksums that are cosmetic, in some code whose call targets are addresses. -/
structure Alike (plain marked : Workbench) : Prop where
  slices : plain.slices.Alike marked.slices
  programs : marked.programs = plain.programs
  unchecked : plain.checksum = none
  checked : ∃ checksum, Address.Checksum.Cosmetic checksum ∧ marked.checksum = some checksum
  held : Option.Rel Frame.Alike plain.held marked.held
  targets : ∀ step ∈ plain.recording.steps, step.TargetHexadecimal

variable {plain marked : Workbench}

namespace Alike

theorem congr (h : plain.Alike marked) {plain' marked' : Workbench} (hp : plain'.core = plain.core)
    (hm : marked'.core = marked.core) : plain'.Alike marked' := by
  have halike : plain.core.Alike marked.core :=
    ⟨h.slices, h.programs, h.unchecked, h.checked, h.held, h.targets⟩
  rw [← hp, ← hm] at halike
  exact ⟨halike.slices, halike.programs, halike.unchecked, halike.checked, halike.held,
    halike.targets⟩

/-! ### Readings -/

theorem step (h : plain.Alike marked) : marked.step = plain.step := by
  rw [Workbench.step, Workbench.step, Recording.nextStep, Recording.nextStep]
  show marked.slices.recording.steps[marked.slices.recording.cursor]? = _
  rw [h.slices.steps, h.slices.cursor]
  rfl

theorem currentCall (h : plain.Alike marked) : plain.currentCall.Alike marked.currentCall :=
  h.slices.current

theorem ownerFrame (h : plain.Alike marked) : plain.ownerFrame.Alike marked.ownerFrame := by
  have hheld := h.held
  rw [Workbench.ownerFrame, Workbench.ownerFrame]
  generalize plain.held = held at hheld ⊢
  generalize marked.held = held' at hheld ⊢
  cases hheld with
  | none => exact h.currentCall
  | some hframe => exact hframe

theorem program (h : plain.Alike marked) : marked.program = plain.program := by
  have hframe : marked.frameProgram = plain.frameProgram := by
    rw [frameProgram, frameProgram, h.programs, h.ownerFrame.binary]
    exact (Registry.lookup_alike h.ownerFrame.address _ _).symm
  rw [Workbench.program, Workbench.program, h.step, hframe, h.programs]

theorem jump (h : plain.Alike marked) : marked.jump = plain.jump := by
  rw [Workbench.jump, Workbench.jump, h.step, h.program]

theorem range (h : plain.Alike marked) : marked.range = plain.range := by
  rw [Workbench.range, Workbench.range, h.step, h.program]

theorem tree (h : plain.Alike marked) : marked.tree = plain.tree := by
  rw [Workbench.tree, Workbench.tree, h.program, h.range]

theorem node (h : plain.Alike marked) : marked.node = plain.node := by
  rw [Workbench.node, Workbench.node, h.range, h.tree]

theorem createBinary (h : plain.Alike marked) : marked.createBinary = plain.createBinary := by
  rw [Workbench.createBinary, Workbench.createBinary, h.step]

theorem functionDepth (h : plain.Alike marked) : marked.functionDepth = plain.functionDepth := by
  rw [Workbench.functionDepth, Workbench.functionDepth, h.slices.functionDepth]

theorem finished (h : plain.Alike marked) : marked.finished = plain.finished := by
  show (marked.slices.recording.loaded
    && decide (marked.slices.recording.steps.length ≤ marked.slices.recording.cursor)) = _
  rw [h.slices.loaded, h.slices.steps, h.slices.cursor]
  rfl

theorem remaining (h : plain.Alike marked) :
    marked.recording.remaining = plain.recording.remaining := by
  show marked.slices.recording.steps.length - marked.slices.recording.cursor = _
  rw [h.slices.steps, h.slices.cursor]
  rfl

theorem closing (h : plain.Alike marked) : marked.closing = plain.closing := by
  rw [Workbench.closing, Workbench.closing, h.remaining]

/-! ### What follows from a step -/

theorem hold (h : plain.Alike marked) : plain.hold.Alike marked.hold :=
  ⟨h.slices, h.programs, h.unchecked, h.checked, .some h.currentCall, h.targets⟩

theorem jumpEvents (h : plain.Alike marked) : marked.jumpEvents = plain.jumpEvents := by
  rw [Workbench.jumpEvents, Workbench.jumpEvents, h.jump]

theorem locationsAt (h : plain.Alike marked) (tree : SyntaxTree) (node : Node) (top : Int) :
    marked.locationsAt tree node top = plain.locationsAt tree node top := by
  simp only [Workbench.locationsAt, scopeVariables, scopes, stateLocations, definitions, h.tree]

theorem bindingEvents (h : plain.Alike marked) : marked.bindingEvents = plain.bindingEvents := by
  simp only [Workbench.bindingEvents, treeId, h.step, h.node, h.tree, h.locationsAt]

/-- The target of a call is told in two spellings. -/
theorem callAddress (h : plain.Alike marked) {step : Step} (hs : plain.step = some step)
    (hc : Opcode.isCall step.op = true) :
    ∃ address address', plain.callAddress = .ok address ∧ marked.callAddress = .ok address' ∧
      Option.Rel Text.Alike address address' := by
  have hmem : step ∈ plain.recording.steps := List.mem_of_getElem? hs
  obtain ⟨checksum, hcosmetic, hchecked⟩ := h.checked
  rw [Workbench.callAddress, Workbench.callAddress, h.step, hs, Option.bind_some, h.unchecked,
    hchecked]
  cases hword : step.targetWord? with
  | none => exact ⟨none, none, rfl, rfl, .none⟩
  | some word =>
    obtain ⟨address, hplain, hsmall, hspelled⟩ :=
      Address.exists_ofText hcosmetic (h.targets step hmem hc word hword)
    refine ⟨some address, some (checksum.spelling address), ?_, ?_, .some (hcosmetic.alike hplain)⟩
    · show (Address.ofText none word).map some = _
      rw [hsmall]
      rfl
    · show (Address.ofText (some checksum) word).map some = _
      rw [hspelled]
      rfl

theorem frameEvents (h : plain.Alike marked) {events : List Event}
    (he : plain.frameEvents = .ok events) :
    ∃ events', marked.frameEvents = .ok events' ∧ List.Forall₂ Event.Alike events events' := by
  rw [Workbench.frameEvents] at he
  rw [Workbench.frameEvents, h.step, h.createBinary]
  cases hs : plain.step with
  | none =>
    rw [hs] at he
    exact ⟨events, he, Event.forall₂_alike_refl events⟩
  | some step =>
    rw [hs] at he
    dsimp only at he ⊢
    by_cases hc : Opcode.isCall step.op = true
    · -- nothing but the target of a call is spelled
      obtain ⟨address, address', haddress, haddress', halike⟩ := h.callAddress hs hc
      rw [if_pos hc, haddress] at he
      obtain rfl := Except.ok.inj he
      rw [if_pos hc, haddress']
      exact ⟨[.call address'], rfl, .cons (.call halike) .nil⟩
    · rw [if_neg hc] at he ⊢
      exact ⟨events, he, Event.forall₂_alike_refl events⟩

theorem answerOf (h : plain.Alike marked) (listener : Listener) {events : List Event}
    (he : plain.answerOf listener = .ok events) :
    ∃ events', marked.answerOf listener = .ok events' ∧
      List.Forall₂ Event.Alike events events' := by
  cases listener with
  | followJumps => exact ⟨events, h.jumpEvents.trans he, Event.forall₂_alike_refl events⟩
  | trackCalls => exact h.frameEvents he
  | bindVariables => exact ⟨events, h.bindingEvents.trans he, Event.forall₂_alike_refl events⟩
  | _ => exact ⟨events, he, Event.forall₂_alike_refl events⟩

theorem gather (h : plain.Alike marked) (listeners : List Listener) {events : List Event}
    (he : plain.gather listeners = .ok events) :
    ∃ events', marked.gather listeners = .ok events' ∧
      List.Forall₂ Event.Alike events events' := by
  induction listeners generalizing events with
  | nil => exact ⟨events, he, Event.forall₂_alike_refl events⟩
  | cons listener rest ih =>
    obtain ⟨first, hfirst, he⟩ := exists_of_bind_eq_ok he
    obtain ⟨more, hmore, he⟩ := exists_of_bind_eq_ok he
    obtain rfl := Except.ok.inj he
    obtain ⟨first', hfirst', halike⟩ := h.answerOf listener hfirst
    obtain ⟨more', hmore', halike'⟩ := ih hmore
    refine ⟨first' ++ more', ?_, List.rel_append halike halike'⟩
    rw [Workbench.gather, hfirst', hmore']
    rfl

/-- What follows from a step without checksums follows from it with checksums. -/
theorem exists_consequences (h : plain.Alike marked) {events : List Event}
    (he : plain.consequences = .ok events) :
    ∃ events', marked.consequences = .ok events' ∧ List.Forall₂ Event.Alike events events' :=
  h.hold.gather readers he

/-! ### Advances -/

theorem derived_of_consequences {bench : Workbench} {events : List Event}
    (he : bench.consequences = .ok events) : ∀ event ∈ events, event.Derived := by
  obtain ⟨-, found, fault, -, hderived, hgather⟩ := bench.hearing_step
  cases fault with
  | some fault =>
    rw [hgather] at he
    cases he
  | none =>
    obtain rfl := Except.ok.inj (hgather.symm.trans he)
    exact hderived

/-- Both take in what follows from a step. -/
theorem takeAll (h : plain.Alike marked) {events events' : List Event}
    (hd : ∀ event ∈ events, event.Derived) (he : List.Forall₂ Event.Alike events events') :
    (plain.takeAll events).Alike (marked.takeAll events') := by
  refine ⟨h.slices.after hd he, h.programs, h.unchecked, h.checked, h.held, ?_⟩
  have hrecording : (plain.takeAll events).recording = plain.recording :=
    Slices.recording_after_derived hd _
  rw [hrecording]
  exact h.targets

/-- A step that is processed without checksums is processed with checksums, and then the workbenches
still differ in the spelling of addresses only. -/
theorem exists_passage (h : plain.Alike marked) {events : List Event}
    (hp : plain.passage = .ok events) :
    ∃ events', marked.passage = .ok events' ∧ List.Forall₂ Event.Alike events events' ∧
      (plain.past events).Alike (marked.past events') := by
  have htargets : ∀ step ∈ (plain.past events).recording.steps, step.TargetHexadecimal := by
    rw [steps_past hp]
    exact h.targets
  -- the frame is let go in both, so the slices are all that is left to compare
  suffices hboth : ∃ events', marked.passage = .ok events' ∧
      List.Forall₂ Event.Alike events events' ∧
      (plain.slices.after events).Alike (marked.slices.after events') by
    obtain ⟨events', hp', halike, hslices⟩ := hboth
    exact ⟨events', hp', halike, hslices, h.programs, h.unchecked, h.checked, .none, htargets⟩
  rw [passage] at hp
  rw [passage, h.remaining, h.closing]
  split at hp
  case isTrue hr =>
    obtain ⟨found, hfound, rfl⟩ := exists_of_map_eq_ok hp
    obtain ⟨found', hfound', halike⟩ := h.exists_consequences hfound
    have hafter := h.slices.after (derived_of_consequences hfound) halike
    rw [if_pos hr, hfound']
    refine ⟨.tick :: found' ++ [plain.closing], rfl, ?_, ?_⟩
    · exact .cons (.refl _) (List.rel_append halike (.cons (.refl _) .nil))
    · rw [Slices.after_append, Slices.after_append, Slices.after_tick, Slices.after_tick,
        Workbench.closing]
      split
      · exact hafter.after_tock
      · exact hafter.after_endOfTrace
  case isFalse hr =>
    obtain rfl := Except.ok.inj hp
    rw [if_neg hr]
    exact ⟨_, rfl, .cons (.refl _) .nil, h.slices.after_endOfTrace⟩

/-- If the steps can be processed without checksums, they can be with checksums. -/
theorem advanceBy (h : plain.Alike marked) {count : Nat} {reached : Workbench}
    (ha : plain.advanceBy count = .ok reached) :
    ∃ reached', marked.advanceBy count = .ok reached' ∧ reached.Alike reached' := by
  induction count generalizing reached with
  | zero =>
    obtain rfl := Except.ok.inj ha
    exact ⟨marked, rfl, h⟩
  | succ count ih =>
    obtain ⟨middle, hmiddle, ha⟩ := exists_of_bind_eq_ok ha
    obtain ⟨middle', hmiddle', halike⟩ := ih hmiddle
    obtain ⟨events, hp, rfl⟩ := exists_of_map_eq_ok ha
    obtain ⟨events', hp', -, hpast⟩ := halike.exists_passage hp
    refine ⟨middle'.past events', ?_, hpast⟩
    rw [Workbench.advanceBy, hmiddle']
    exact advance_of_passage hp'

theorem processable (h : plain.Alike marked) (hp : plain.Processable) : marked.Processable := by
  intro count
  obtain ⟨reached, hreached⟩ := hp count
  obtain ⟨reached', hreached', -⟩ := h.advanceBy hreached
  exact ⟨reached', hreached'⟩

/-! ### Pursuits -/

theorem walk (h : plain.Alike marked) (purpose : Purpose) :
    marked.walk purpose = plain.walk purpose := by
  rw [Workbench.walk, Workbench.walk, h.range]

theorem isMultiline (h : plain.Alike marked) : marked.isMultiline = plain.isMultiline := by
  rw [Workbench.isMultiline, Workbench.isMultiline, h.range]

theorem stepOver (h : plain.Alike marked) : marked.stepOver = plain.stepOver := by
  simp only [Workbench.stepOver, h.range, h.functionDepth, h.walk]

/-- A command begins in the same way in both. -/
theorem begin (h : plain.Alike marked) (event : Event) (command : Command) :
    marked.begin event command = plain.begin event command := by
  cases command with
  | advance => rfl
  | stepNext => exact h.walk _
  | stepOver => exact h.stepOver
  | stepInto =>
    have hjump : marked.opIs Opcode.isJump = plain.opIs Opcode.isJump := by
      rw [opIs, opIs, h.step]
    rw [Workbench.begin, Workbench.begin, Workbench.stepInto, Workbench.stepInto, hjump]
    simp only [h.isMultiline, h.stepOver, h.range, h.functionDepth, h.walk]
  | stepOut =>
    simp only [Workbench.begin, Workbench.stepOut, h.isMultiline, h.stepOver, h.functionDepth,
      h.walk]
  | continueUntil => simp only [Workbench.begin, h.walk]

theorem restsFrom (h : plain.Alike marked) (start : Option SourceRange) :
    marked.restsFrom start = plain.restsFrom start := by
  rw [Workbench.restsFrom, Workbench.restsFrom, h.node, h.range]

theorem walksOn (h : plain.Alike marked) (purpose : Purpose) :
    marked.walksOn purpose = plain.walksOn purpose := by
  cases purpose <;>
    simp only [Workbench.walksOn, h.range, h.node, h.functionDepth,
      Breakpoint.anyHit_alike h.currentCall]

/-- A pursuit goes on in the same way in both. -/
theorem proceed (h : plain.Alike marked) (pursuit : Pursuit) :
    marked.proceed pursuit = plain.proceed pursuit := by
  cases pursuit with
  | single => rfl
  | walk start purpose =>
    simp only [Workbench.proceed, h.finished, h.restsFrom, h.walksOn, h.walk]

/-- A pursuit passes the same steps in both and ends in the same way. -/
theorem runs (h : plain.Alike marked) {pursuit : Pursuit} {blocks : List (List Event)}
    {reached : Workbench} {fault : Option Fault} (hr : plain.Runs pursuit blocks reached fault) :
    ∃ blocks' reached', marked.Runs pursuit blocks' reached' fault ∧
      List.Forall₂ (List.Forall₂ Event.Alike) blocks blocks' ∧ reached.Alike reached' := by
  induction hr generalizing marked with
  | ended hp hn =>
    obtain ⟨events', hp', halike, hpast⟩ := h.exists_passage hp
    exact ⟨_, _, .ended hp' ((hpast.proceed _).trans hn), .cons halike .nil, hpast⟩
  | failed hp hf =>
    obtain ⟨events', hp', halike, hpast⟩ := h.exists_passage hp
    exact ⟨_, _, .failed hp' ((hpast.proceed _).trans hf), .cons halike .nil, hpast⟩
  | on hp hm _ ih =>
    obtain ⟨events', hp', halike, hpast⟩ := h.exists_passage hp
    obtain ⟨blocks', reached', hr', hblocks, hreached⟩ := ih hpast
    exact ⟨_, reached', .on hp' ((hpast.proceed _).trans hm) hr', .cons halike hblocks, hreached⟩

end Alike

end Workbench

end TraceDebugger
