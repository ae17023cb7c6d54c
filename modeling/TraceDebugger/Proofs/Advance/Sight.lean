/-
What the readings of a step depend on.

A reading of the step under the cursor sees the recording, the frame that the step belongs to and
the compiled programs, and nothing else of the workbench: this is its `sight`.  The call stack, the
bindings and the depth of functions may change while a step is processed, and no later reading of
the same step notices it, because the frame is held (`sight_takeAll`).

* `jumpEvents`, `frameEvents`, `bindingEvents` — the events with which the three listeners of a step
  answer, as functions of the sight;
* `hearing` — what becomes of a workbench while listeners hear an event one after the other;
* `hearing_step` — the listeners of a step hold the frame and answer with the events of
  `consequences`, or stop at its fault;
* `passage`, `advance` — the events by which a step is processed, and the workbench after it.
-/
import TraceDebugger.Proofs.Readings
import TraceDebugger.Session.Control

namespace TraceDebugger

/-! ### Events that follow from a step -/

/-- The events that processing a step may cause. -/
inductive Event.Derived : Event → Prop
  | jump (delta : Int) : Derived (.jump delta)
  | call (address : Option String) : Derived (.call address)
  | create (binary : Option String) : Derived (.create binary)
  | returnCall : Derived .returnCall
  | assign (treeId : TreeId) (locations : Locations) : Derived (.assign treeId locations)

namespace Slices

/-- The slices after some events that all of them can take. -/
def after (slices : Slices) (events : List Event) : Slices :=
  events.foldl (fun slices event => (slices.reduce event Session.slices).1) slices

theorem after_cons (slices : Slices) (event : Event) (events : List Event) :
    slices.after (event :: events) = (slices.after [event]).after events := rfl

theorem after_append (slices : Slices) (first second : List Event) :
    slices.after (first ++ second) = (slices.after first).after second := by
  rw [after, List.foldl_append]
  rfl

/-- A derived event is taken without a fault, and leaves the recording alone. -/
theorem reduce_derived {event : Event} (h : event.Derived) (slices : Slices) :
    slices.reduce event Session.slices = (slices.after [event], none) ∧
      (slices.after [event]).recording = slices.recording := by
  cases h <;> exact ⟨rfl, rfl⟩

theorem recording_after_derived {events : List Event} (h : ∀ event ∈ events, event.Derived) :
    ∀ slices : Slices, (slices.after events).recording = slices.recording := by
  induction events with
  | nil => exact fun _ => rfl
  | cons event events ih =>
    intro slices
    rw [after_cons, ih (fun e he => h e (List.mem_cons_of_mem _ he))]
    exact (reduce_derived (h event List.mem_cons_self) slices).2

theorem after_tock (slices : Slices) :
    slices.after [.tock] = { slices with recording := slices.recording.forward } := rfl

theorem after_endOfTrace (slices : Slices) :
    slices.after [.endOfTrace] = { slices with recording := slices.recording.toEnd } := rfl

end Slices

namespace Workbench

variable {bench : Workbench}

/-! ### Sight -/

/-- A workbench without its log, the notes of listeners and the command that runs: what commands and
steps depend on. -/
def core (bench : Workbench) : Workbench := { bench with active := none, heard := [], lines := [] }

/-- What the readings of the step under the cursor see. -/
def sight (bench : Workbench) : Workbench :=
  { slices := { recording := bench.slices.recording }
    programs := bench.programs
    checksum := bench.checksum
    held := some bench.ownerFrame }

/-- The slices take some events. -/
def takeAll (bench : Workbench) (events : List Event) : Workbench :=
  { bench with slices := bench.slices.after events }

theorem takeAll_append (bench : Workbench) (first second : List Event) :
    bench.takeAll (first ++ second) = (bench.takeAll first).takeAll second := by
  rw [takeAll, Slices.after_append]
  rfl

/-- The frame in which the step under the cursor runs is held. -/
def hold (bench : Workbench) : Workbench := { bench with held := some bench.currentCall }

/-- No frame is held. -/
def release (bench : Workbench) : Workbench := { bench with held := none }

/-- The workbench with another log. -/
def logged (lines : List LogLine) (bench : Workbench) : Workbench := { bench with lines }

/-- Once the frame is held, derived events change nothing that a reading sees. -/
theorem sight_takeAll {frame : Frame} (hheld : bench.held = some frame) {events : List Event}
    (h : ∀ event ∈ events, event.Derived) : (bench.takeAll events).sight = bench.sight := by
  have howner : (bench.takeAll events).ownerFrame = bench.ownerFrame := by
    rw [ownerFrame, ownerFrame, show (bench.takeAll events).held = bench.held from rfl, hheld]
    rfl
  rw [sight, sight, howner, takeAll, Slices.recording_after_derived h]

/-! ### The answers of the listeners -/

/-- The jump of the step, into or out of a function. -/
def jumpEvents (bench : Workbench) : Except Fault (List Event) :=
  bench.jump.map fun jump => match jump with
    | .into => [.jump 1]
    | .out => [.jump (-1)]
    | _ => []

/-- The frame that the step enters or leaves. -/
def frameEvents (bench : Workbench) : Except Fault (List Event) :=
  match bench.step with
  | none => .ok []
  | some step =>
    if Opcode.isCall step.op then bench.callAddress.map fun address => [.call address]
    else if Opcode.isCreate step.op then bench.createBinary.map fun binary => [.create binary]
    else if Opcode.isHalting step.op then .ok [.returnCall]
    else .ok []

/-- The locations of the variables that a step defines at a node, if it defines any there. -/
def locationsAt (tree : SyntaxTree) (node : Node) (top : Int) (bench : Workbench) :
    Except Fault (Option Locations) :=
  match node.kind with
  | .function => (functionParameters tree node top).map some
  | .variableDeclaration => .ok (some [(node.id, .stack top)])
  | .contract => (bench.scopeVariables node.id).bind fun members =>
      (bench.stateLocations members).map some
  | .other => .ok none

/-- The variables that the step defines. -/
def bindingEvents (bench : Workbench) : Except Fault (List Event) :=
  match bench.step.bind (·.stack) with
  | none => .ok []
  | some words =>
    match bench.node, bench.tree with
    | .ok (some node), .ok (some tree) => do
      match ← bench.locationsAt tree node ((words.length : Int) - 1) with
      | none => return []
      | some locations => return [.assign (← bench.treeId) locations]
    | .error fault, _ => .error fault
    | _, .error fault => .error fault
    | _, _ => .ok []

/-- How a listener answers a step when the frame is held. -/
def answerOf (bench : Workbench) : Listener → Except Fault (List Event)
  | .followJumps => bench.jumpEvents
  | .trackCalls => bench.frameEvents
  | .bindVariables => bench.bindingEvents
  | _ => .ok []

/-- The answers of some listeners to a step, one after the other. -/
def gather (bench : Workbench) : List Listener → Except Fault (List Event)
  | [] => .ok []
  | listener :: rest => do
    let events ← bench.answerOf listener
    let more ← bench.gather rest
    return events ++ more

/-- The listeners that answer a step. -/
def readers : List Listener := [.followJumps, .trackCalls, .bindVariables]

/-- The events that follow from the step under the cursor. -/
def consequences (bench : Workbench) : Except Fault (List Event) := bench.hold.gather readers

theorem answerOf_sight (bench : Workbench) (listener : Listener) :
    bench.sight.answerOf listener = bench.answerOf listener := by
  cases listener <;> rfl

theorem gather_sight (bench : Workbench) (listeners : List Listener) :
    bench.sight.gather listeners = bench.gather listeners := by
  induction listeners with
  | nil => rfl
  | cons listener rest ih => rw [gather, gather, answerOf_sight, ih]

theorem derived_of_jumpEvents {events : List Event} (h : bench.jumpEvents = .ok events) :
    ∀ event ∈ events, event.Derived := by
  intro event hevent
  obtain ⟨jump, -, rfl⟩ := exists_of_map_eq_ok h
  cases jump with
  | into => obtain rfl := List.mem_singleton.mp hevent; exact .jump _
  | out => obtain rfl := List.mem_singleton.mp hevent; exact .jump _
  | regular => cases hevent
  | other mark => cases hevent

theorem derived_of_frameEvents {events : List Event} (h : bench.frameEvents = .ok events) :
    ∀ event ∈ events, event.Derived := by
  intro event hevent
  rw [frameEvents] at h
  split at h
  · obtain rfl := Except.ok.inj h
    cases hevent
  · split at h
    · obtain ⟨address, -, rfl⟩ := exists_of_map_eq_ok h
      obtain rfl := List.mem_singleton.mp hevent
      exact .call _
    · split at h
      · obtain ⟨binary, -, rfl⟩ := exists_of_map_eq_ok h
        obtain rfl := List.mem_singleton.mp hevent
        exact .create _
      · split at h
        · obtain rfl := Except.ok.inj h
          obtain rfl := List.mem_singleton.mp hevent
          exact .returnCall
        · obtain rfl := Except.ok.inj h
          cases hevent

/-- A step defines no variables, or it assigns the locations found at its node to its tree. -/
theorem bindingEvents_cases {events : List Event} (h : bench.bindingEvents = .ok events) :
    events = [] ∨ ∃ tree locations, events = [.assign tree locations] := by
  rw [bindingEvents] at h
  split at h
  · exact .inl (Except.ok.inj h).symm
  · split at h
    · obtain ⟨found, -, h⟩ := exists_of_bind_eq_ok h
      cases found with
      | none => exact .inl (Except.ok.inj h).symm
      | some locations =>
        obtain ⟨tree, -, h⟩ := exists_of_bind_eq_ok h
        exact .inr ⟨tree, locations, (Except.ok.inj h).symm⟩
    · cases h
    · cases h
    · exact .inl (Except.ok.inj h).symm

theorem derived_of_bindingEvents {events : List Event} (h : bench.bindingEvents = .ok events) :
    ∀ event ∈ events, event.Derived := by
  intro event hevent
  obtain rfl | ⟨tree, locations, rfl⟩ := bindingEvents_cases h
  · cases hevent
  · obtain rfl := List.mem_singleton.mp hevent
    exact .assign _ _

theorem derived_of_answerOf {listener : Listener} {events : List Event}
    (h : bench.answerOf listener = .ok events) : ∀ event ∈ events, event.Derived := by
  cases listener with
  | followJumps => exact derived_of_jumpEvents h
  | trackCalls => exact derived_of_frameEvents h
  | bindVariables => exact derived_of_bindingEvents h
  | _ => obtain rfl := Except.ok.inj h; exact fun event hevent => absurd hevent List.not_mem_nil

/-! ### Hearing -/

/-- What becomes of a workbench while some listeners hear an event one after the other and their
answers are taken at once; the answers, and the fault that ended it. -/
def hearing (event : Event) : List Listener → Workbench → Workbench × List Event × Option Fault
  | [], bench => (bench, [], none)
  | listener :: rest, bench =>
    match bench.react event listener with
    | (bench, .error fault) => (bench, [], some fault)
    | (bench, .ok events) =>
      match hearing event rest (bench.takeAll events) with
      | (bench, more, fault) => (bench, events ++ more, fault)

theorem trackCalls_eq (bench : Workbench) :
    ∃ lines, bench.trackCalls = (bench.logged lines, bench.frameEvents) := by
  rw [trackCalls, frameEvents]
  cases bench.step with
  | none => exact ⟨_, rfl⟩
  | some step =>
    dsimp only
    split
    · cases bench.callAddress <;> exact ⟨_, rfl⟩
    · split
      · cases bench.createBinary <;> exact ⟨_, rfl⟩
      · split <;> exact ⟨_, rfl⟩

theorem bindAt_eq (bench : Workbench) (tree : SyntaxTree) (node : Node) (top : Int) :
    ∃ lines, bench.bindAt tree node top = (bench.logged lines, do
      match ← bench.locationsAt tree node top with
      | none => return []
      | some locations => return [.assign (← bench.treeId) locations]) := by
  rw [bindAt, locationsAt]
  cases node.kind with
  | function =>
    cases functionParameters tree node top with
    | error fault => exact ⟨_, rfl⟩
    | ok locations => exact ⟨_, rfl⟩
  | variableDeclaration => exact ⟨_, rfl⟩
  | contract =>
    dsimp only
    cases bench.scopeVariables node.id with
    | error fault => exact ⟨_, rfl⟩
    | ok members =>
      -- the members are logged before their locations are looked up
      show ∃ lines, (bench.log _ _ _).announceFound node (bench.stateLocations members) = _
      dsimp only [Except.bind]
      cases bench.stateLocations members with
      | error fault => exact ⟨_, rfl⟩
      | ok locations => exact ⟨_, rfl⟩
  | other => exact ⟨_, rfl⟩

theorem bindVariables_eq (bench : Workbench) :
    ∃ lines, bench.bindVariables = (bench.logged lines, bench.bindingEvents) := by
  rw [bindVariables, bindingEvents]
  cases bench.step.bind (·.stack) with
  | none => exact ⟨_, rfl⟩
  | some words =>
    cases bench.node with
    | error fault => exact ⟨_, rfl⟩
    | ok node =>
      cases bench.tree with
      | error fault => cases node <;> exact ⟨_, rfl⟩
      | ok tree =>
        cases node with
        | none => cases tree <;> exact ⟨_, rfl⟩
        | some node =>
          cases tree with
          | none => exact ⟨_, rfl⟩
          | some tree => exact bench.bindAt_eq tree node _

/-- Besides its answer, a listener that reads the step leaves only lines in the log. -/
theorem react_reader {listener : Listener} (h : listener ∈ readers) (bench : Workbench) :
    ∃ lines, bench.react .tick listener = (bench.logged lines, bench.answerOf listener) := by
  rcases List.mem_cons.mp h with rfl | h
  · exact ⟨bench.lines, rfl⟩
  rcases List.mem_cons.mp h with rfl | h
  · exact bench.trackCalls_eq
  obtain rfl := List.mem_singleton.mp h
  exact bench.bindVariables_eq

/-- Once the frame is held, each listener answers what it would have answered had the others not
been there: the answers are gathered up to the first fault. -/
theorem hearing_readers {listeners : List Listener} (hl : ∀ l ∈ listeners, l ∈ readers) :
    ∀ {bench : Workbench} {frame : Frame}, bench.held = some frame →
      ∃ lines events fault,
        bench.hearing .tick listeners = ((bench.takeAll events).logged lines, events, fault) ∧
          (∀ event ∈ events, event.Derived) ∧
          match fault with
          | none => bench.gather listeners = .ok events
          | some fault => bench.gather listeners = .error fault := by
  induction listeners with
  | nil => exact fun _ => ⟨_, [], none, rfl, fun _ h => absurd h List.not_mem_nil, rfl⟩
  | cons listener rest ih =>
    intro bench frame hheld
    obtain ⟨lines, hreact⟩ := react_reader (hl listener List.mem_cons_self) bench
    cases hanswer : bench.answerOf listener with
    | error fault =>
      refine ⟨lines, [], some fault, ?_, fun _ h => absurd h List.not_mem_nil, ?_⟩
      · rw [hearing, hreact, hanswer]
        rfl
      · rw [gather, hanswer]
        rfl
    | ok events =>
      have hderived := derived_of_answerOf hanswer
      have hlogged : (bench.logged lines).held = some frame := hheld
      have hsight : ((bench.logged lines).takeAll events).sight = bench.sight :=
        sight_takeAll hlogged hderived
      have htaken : ((bench.logged lines).takeAll events).held = some frame := hheld
      obtain ⟨lines', more, fault, hhear, hmore, hgather⟩ :=
        ih (fun l h => hl l (List.mem_cons_of_mem _ h)) htaken
      -- the rest answer after these answers were taken, and do not notice it
      rw [← gather_sight, hsight, gather_sight] at hgather
      refine ⟨lines', events ++ more, fault, ?_, ?_, ?_⟩
      · rw [hearing, hreact, hanswer]
        dsimp only
        rw [hhear, takeAll_append]
        rfl
      · intro event hevent
        rcases List.mem_append.mp hevent with h | h
        · exact hderived event h
        · exact hmore event h
      · cases fault with
        | none => rw [gather, hanswer, hgather]; rfl
        | some fault => rw [gather, hanswer, hgather]; rfl

/-- The listeners of a step hold the frame and then gather its consequences. -/
theorem hearing_step (bench : Workbench) :
    ∃ lines events fault,
      bench.hearing .tick (.holdFrame :: readers)
          = ((bench.hold.takeAll events).logged lines, events, fault) ∧
        (∀ event ∈ events, event.Derived) ∧
        match fault with
        | none => bench.consequences = .ok events
        | some fault => bench.consequences = .error fault := by
  have hheld : bench.hold.held = some bench.currentCall := rfl
  obtain ⟨lines, events, fault, hhear, hderived, hgather⟩ := hearing_readers (fun _ h => h) hheld
  refine ⟨lines, events, fault, ?_, hderived, hgather⟩
  rw [hearing]
  show (match bench.hold.hearing .tick readers with
    | (bench, more, fault) => (bench, [] ++ more, fault)) = _
  rw [hhear]
  rfl

/-! ### The passage of a step -/

/-- The event that ends the processing of the step under the cursor. -/
def closing (bench : Workbench) : Event :=
  if 1 < bench.recording.remaining then .tock else .endOfTrace

/-- The events by which the step under the cursor is processed; at the end of the trace, its
announcement. -/
def passage (bench : Workbench) : Except Fault (List Event) :=
  if 0 < bench.recording.remaining then
    bench.consequences.map fun events => .tick :: events ++ [bench.closing]
  else .ok [.endOfTrace]

/-- The workbench after the step under the cursor. -/
def advance (bench : Workbench) : Except Fault Workbench :=
  bench.passage.map fun events => (bench.takeAll events).release

end Workbench

end TraceDebugger
