/-
The program in which a step is read.

All that is read about a step while it is processed is read in one program, which is found before
anything changes: the program of the step's own address, or else that of the frame in which it runs
(`owner`).  What a program tells about a step depends on nothing else.

* `jump_eq`, `bindingEvents_eq` — the jump and the variables of a step are those that its owner
  tells;
* `exists_block_of_owner` — so are the events by which it is processed;
* `Passes.exists_readings` — and so are the source range and the node at a position;
* `gather_perm`, `hearAll_perm` — once the frame is held, the other listeners of a step may hear it
  in any order;
* `step_owner` — the main result, about every step that a session processes.
-/
import TraceDebugger.Proofs.Session.Chronicle
import TraceDebugger.Proofs.Session.Stops
import TraceDebugger.Proofs.Session.Waiting

namespace TraceDebugger

/-! ### What a program tells about a step -/

namespace Step

/-- The address that a step tells of itself. -/
def ownAddress? (step : Step) : Option String := step.address.text?.filter (· != "")

/-- The jump of a step. -/
def jumpIn (step : Step) : Option Program → Except Fault Jump
  | some program => program.map.jumpAt step.pc
  | none => .ok .regular

/-- The source range of a step. -/
def rangeIn (step : Step) : Option Program → Except Fault (Option SourceRange)
  | some program => program.map.rangeAt step.pc
  | none => .ok none

/-- The syntax tree of the source of a step. -/
def treeIn (step : Step) : Option Program → Except Fault (Option SyntaxTree)
  | some program => (program.map.rangeAt step.pc).map program.treeFor
  | none => .ok none

end Step

/-- The node of a tree at a range. -/
def SyntaxTree.nodeAt (range : Option SourceRange) (tree : Option SyntaxTree) : Option Node :=
  range.bind fun range => tree.bind fun tree => tree.find? range.start range.length

/-- The locations of the variables that are declared at a node, if any are, given the top of the
stack. -/
def SyntaxTree.locationsAt (tree : SyntaxTree) (node : Node) (top : Int) :
    Except Fault (Option Locations) :=
  match node.kind with
  | .function => (Workbench.functionParameters tree node top).map some
  | .variableDeclaration => .ok (some [(node.id, .stack top)])
  | .contract => do
    let members := ((SyntaxTree.valueOf? node.id (← tree.scopes)).map (·.members)).getD []
    let allocation ← Storage.allocate tree.definitions (members.map ScopeVariable.toJson)
    return some (allocation.places.map fun (id, place) => (id, Location.storage place))
  | .other => .ok none

/-- What is published of the variables that are declared at a node. -/
def SyntaxTree.assignmentAt (tree : SyntaxTree) (node : Node) (top : Int) :
    Except Fault (List Event) :=
  (tree.locationsAt node top).map fun found =>
    (found.map fun locations => Event.assign (some tree.index) locations).toList

/-- What is published of the variables that a step defines. -/
def Step.assignmentIn (step : Step) (program : Option Program) : Except Fault (List Event) :=
  match step.stack with
  | none => .ok []
  | some words => do
    let range ← step.rangeIn program
    let tree ← step.treeIn program
    match tree, SyntaxTree.nodeAt range tree with
    | some tree, some node => tree.assignmentAt node ((words.length : Int) - 1)
    | _, _ => .ok []

namespace Workbench

variable {bench : Workbench} {step : Step}

/-- The program of a step: that of its own address, or else that of the frame in which it runs. -/
def owner (bench : Workbench) (step : Step) : Option Program :=
  match step.ownAddress? with
  | some address => bench.programs.lookup (some address) none
  | none => bench.programs.lookup bench.currentCall.address bench.currentCall.binary

theorem frameProgram_eq (hh : bench.held = none) : bench.frameProgram
    = bench.programs.lookup bench.currentCall.address bench.currentCall.binary := by
  rw [frameProgram, ownerFrame, hh]
  rfl

/-- The program in which a step is read is its owner. -/
theorem program_eq_owner (hh : bench.held = none) (hs : bench.step = some step)
    {program : Option Program} (hp : bench.program = .ok program) : program = bench.owner step := by
  rw [Workbench.program, hs, frameProgram_eq hh] at hp
  rw [owner, Step.ownAddress?]
  dsimp only at hp
  cases haddress : step.address with
  | str address =>
    rw [haddress] at hp
    by_cases he : address = ""
    · subst he
      exact (Except.ok.inj hp).symm
    · have htruthy : (Json.str address).truthy = true := by simpa [Json.truthy] using he
      have hown : ((Json.str address).text?.filter (· != "")) = some address := by
        simpa [Json.text?, Option.filter] using he
      rw [if_pos htruthy] at hp
      rw [hown]
      exact (Except.ok.inj hp).symm
  | _ =>
    -- an address that is no text is not set, or there is no program
    rw [haddress] at hp
    split at hp
    · cases hp
    · exact (Except.ok.inj hp).symm

/-! ### Readings -/

theorem jump_eq (hs : bench.step = some step) {program : Option Program}
    (hp : bench.program = .ok program) : bench.jump = step.jumpIn program := by
  rw [Workbench.jump, hp, hs]
  cases program <;> rfl

theorem range_eq (hs : bench.step = some step) {program : Option Program}
    (hp : bench.program = .ok program) : bench.range = step.rangeIn program := by
  rw [Workbench.range, hp, hs]
  cases program <;> rfl

theorem tree_eq (hs : bench.step = some step) {program : Option Program}
    (hp : bench.program = .ok program) : bench.tree = step.treeIn program := by
  rw [Workbench.tree, range_eq hs hp, hp]
  cases program with
  | none => rfl
  | some program =>
    show (do return program.treeFor (← program.map.rangeAt step.pc)) = _
    rw [Step.treeIn]
    cases program.map.rangeAt step.pc <;> rfl

theorem node_eq {range : Option SourceRange} {tree : Option SyntaxTree}
    (hr : bench.range = .ok range) (ht : bench.tree = .ok tree) :
    bench.node = .ok (SyntaxTree.nodeAt range tree) := by
  rw [Workbench.node, hr, ht]
  cases range <;> cases tree <;> rfl

theorem locationsAt_eq {tree : SyntaxTree} (ht : bench.tree = .ok (some tree)) (node : Node)
    (top : Int) : bench.locationsAt tree node top = tree.locationsAt node top := by
  rw [Workbench.locationsAt, SyntaxTree.locationsAt]
  -- only the locations at a contract are read of the trees that the workbench finds
  cases node.kind with
  | contract =>
    have hscopes : bench.scopes = tree.scopes := by
      rw [Workbench.scopes, ht]
      rfl
    have hdefinitions : bench.definitions = .ok tree.definitions := by
      rw [Workbench.definitions, ht]
      rfl
    dsimp only
    rw [scopeVariables, hscopes]
    cases tree.scopes with
    | error fault => rfl
    | ok scopes =>
      let members := ((SyntaxTree.valueOf? node.id scopes).map (·.members)).getD []
      show (bench.stateLocations members).map some = _
      rw [stateLocations, hdefinitions]
      show (Storage.allocate tree.definitions (members.map ScopeVariable.toJson) >>= _).map some
        = Storage.allocate tree.definitions (members.map ScopeVariable.toJson) >>= _
      cases Storage.allocate tree.definitions (members.map ScopeVariable.toJson) <;> rfl
  | _ => rfl

/-- The variables that a step defines are those that the program tells. -/
theorem bindingEvents_eq (hs : bench.step = some step) {program : Option Program}
    (hp : bench.program = .ok program) : bench.bindingEvents = step.assignmentIn program := by
  rw [bindingEvents, Step.assignmentIn, hs]
  dsimp only [Option.bind_some]
  -- the stack, the range, the tree and the node are read in this order, and each may be missing
  cases step.stack with
  | none => rfl
  | some words =>
    dsimp only
    rw [← range_eq hs hp, ← tree_eq hs hp]
    cases hrange : bench.range with
    | error fault =>
      rw [Workbench.node, hrange]
      rfl
    | ok range =>
      cases htree : bench.tree with
      | error fault =>
        rw [Workbench.node, hrange, htree]
        rfl
      | ok tree =>
        have hnode := node_eq hrange htree
        cases tree with
        | none =>
          rw [hnode]
          cases SyntaxTree.nodeAt range none <;> rfl
        | some tree =>
          show _ = (match some tree, SyntaxTree.nodeAt range (some tree) with
            | some tree, some node => tree.assignmentAt node ((words.length : Int) - 1)
            | _, _ => .ok [])
          rw [hnode]
          cases SyntaxTree.nodeAt range (some tree) with
          | none => rfl
          | some node =>
            have htreeId : bench.treeId = .ok (some tree.index) := by
              rw [treeId, htree]
              rfl
            dsimp only
            rw [SyntaxTree.assignmentAt, locationsAt_eq htree, htreeId]
            cases tree.locationsAt node ((words.length : Int) - 1) with
            | error fault => rfl
            | ok found => cases found <;> rfl

/-- The events by which a step is processed are those that its owner tells. -/
theorem exists_block_of_owner (h : bench.Poised) (hs : bench.step = some step) {events : List Event}
    (hp : bench.passage = .ok events) :
    ∃ jump frames bound,
      step.jumpIn (bench.owner step) = .ok jump ∧ FrameOf step frames ∧
      step.assignmentIn (bench.owner step) = .ok bound ∧
      events = .tick :: (eventsOfJump jump ++ frames ++ bound) ++ [bench.closing] := by
  obtain ⟨jump, frames, bound, hjump, hframes, hbound, hevents⟩ := exists_answers h hs hp
  obtain ⟨program, hprogram⟩ : ∃ program, bench.program = .ok program := by
    rw [Workbench.jump] at hjump
    obtain ⟨program, hprogram, -⟩ := exists_of_bind_eq_ok hjump
    exact ⟨program, hprogram⟩
  rw [jump_eq hs hprogram] at hjump
  rw [bindingEvents_eq hs hprogram] at hbound
  obtain rfl := program_eq_owner h.held hs hprogram
  exact ⟨jump, frames, bound, hjump, frameOf_of_frameEvents hs hframes, hbound, hevents⟩

end Workbench

/-! ### What is read at a position -/

namespace Session

variable {session : Session} {position : Nat} {step : Step} {events : List Event}

/-- The step at a position is read in the program that owns it. -/
theorem Passes.program (h : session.Passes position step events) :
    (session.viewAt position).program = .ok ((session.viewAt position).owner step) := by
  obtain ⟨jump, -, -, hjump, -⟩ := Workbench.exists_answers h.poised h.reads h.passage
  rw [Workbench.jump] at hjump
  obtain ⟨program, hprogram, -⟩ := exists_of_bind_eq_ok hjump
  rw [hprogram, Workbench.program_eq_owner h.poised.held h.reads hprogram]

/-- What is read at a position is what the program of the step there tells. -/
theorem Passes.exists_readings (h : session.Passes position step events) :
    ∃ range tree, step.rangeIn ((session.viewAt position).owner step) = .ok range ∧
      step.treeIn ((session.viewAt position).owner step) = .ok tree ∧
      session.rangeAt position = range ∧
      session.nodeAt position = SyntaxTree.nodeAt range tree := by
  obtain ⟨jump, -, -, hjump, -⟩ := Workbench.exists_answers h.poised h.reads h.passage
  obtain ⟨range, tree, -, hrange, htree, -⟩ := Workbench.exists_readings_of_jump hjump
  refine ⟨range, tree, (Workbench.range_eq h.reads h.program).symm.trans hrange,
    (Workbench.tree_eq h.reads h.program).symm.trans htree, ?_, ?_⟩
  · rw [rangeAt, hrange]
    rfl
  · rw [nodeAt, Workbench.node_eq hrange htree]
    rfl

end Session

/-! ### Listeners in any order -/

/-- A change of one of the slices in which the events of a step are taken. -/
inductive Slices.Touches : SliceName → (Slices → Slices) → Prop
  | functionDepth (change : FunctionDepth → FunctionDepth) :
    Touches .functionDepth fun slices =>
      { slices with functionDepth := change slices.functionDepth }
  | callStack (change : CallStack → CallStack) :
    Touches .callStack fun slices => { slices with callStack := change slices.callStack }
  | bindings (change : Bindings → Bindings) :
    Touches .bindings fun slices => { slices with bindings := change slices.bindings }

/-- Changes of different slices may be exchanged. -/
theorem Slices.Touches.comm {name name' : SliceName} {change change' : Slices → Slices}
    (h : Touches name change) (h' : Touches name' change') (hne : name ≠ name') (slices : Slices) :
    change (change' slices) = change' (change slices) := by
  cases h <;> cases h' <;> first | rfl | exact absurd rfl hne

namespace Workbench

variable {bench : Workbench}

/-- The slice in which the answers of a listener to a step are taken. -/
def sliceOf : Listener → SliceName
  | .followJumps => .functionDepth
  | .trackCalls => .callStack
  | _ => .bindings

theorem sliceOf_injective {listener other : Listener} (h : listener ∈ readers)
    (h' : other ∈ readers)
    (hs : sliceOf listener = sliceOf other) : listener = other := by
  have hreaders {l : Listener} (hl : l ∈ readers) :
      l = .followJumps ∨ l = .trackCalls ∨ l = .bindVariables := by
    simpa [readers] using hl
  rcases hreaders h with rfl | rfl | rfl <;> rcases hreaders h' with rfl | rfl | rfl <;>
    first | rfl | cases hs

/-- The answers of a listener to a step change one slice. -/
theorem touches_of_answerOf {listener : Listener} (hl : listener ∈ readers) {events : List Event}
    (h : bench.answerOf listener = .ok events) :
    Slices.Touches (sliceOf listener) fun slices => slices.after events := by
  have hreaders : listener = .followJumps ∨ listener = .trackCalls ∨ listener = .bindVariables := by
    simpa [readers] using hl
  -- jumps change the depth, calls the call stack, and variables the bindings
  rcases hreaders with rfl | rfl | rfl
  · obtain ⟨jump, -, rfl⟩ := exists_of_map_eq_ok h
    cases jump with
    | into => exact .functionDepth fun state => { state with depth := max 0 (state.depth + 1) }
    | out => exact .functionDepth fun state => { state with depth := max 0 (state.depth + -1) }
    | _ => exact .functionDepth fun state => state
  · cases hs : bench.step with
    | none =>
      have h : bench.frameEvents = .ok events := h
      rw [frameEvents, hs] at h
      obtain rfl := Except.ok.inj h
      exact .callStack fun stack => stack
    | some step =>
      cases frameOf_of_frameEvents hs h with
      | call address _ => exact .callStack fun stack => stack.push address none
      | create binary _ => exact .callStack fun stack => stack.push none binary
      | leave _ => exact .callStack fun stack => stack.pop
      | stay => exact .callStack fun stack => stack
  · rcases bindingEvents_cases h with rfl | ⟨tree, locations, rfl⟩
    · exact .bindings fun bindings => bindings
    · exact .bindings fun bindings => bindings.assign tree locations

/-- Once the frame is held, the listeners of a step may answer in any order. -/
theorem gather_perm {order other : List Listener} (hp : order.Perm other)
    (hr : ∀ listener ∈ order, listener ∈ readers) {events : List Event}
    (h : bench.gather order = .ok events) :
    ∃ events', bench.gather other = .ok events' ∧
      ∀ slices : Slices, slices.after events' = slices.after events := by
  -- on the permutation: listeners change different slices, so two neighbours may change places
  induction hp generalizing events with
  | nil => exact ⟨events, h, fun _ => rfl⟩
  | @cons listener order other _ ih =>
    obtain ⟨first, hfirst, h⟩ := exists_of_bind_eq_ok h
    obtain ⟨rest, hrest, h⟩ := exists_of_bind_eq_ok h
    obtain rfl : first ++ rest = events := Except.ok.inj h
    obtain ⟨rest', hrest', hafter⟩ := ih (fun l hl => hr l (List.mem_cons_of_mem _ hl)) hrest
    refine ⟨first ++ rest', ?_, fun slices => ?_⟩
    · rw [gather, hfirst, hrest']
      rfl
    · rw [Slices.after_append, Slices.after_append, hafter]
  | swap listener other rest =>
    obtain ⟨second, hsecond, h⟩ := exists_of_bind_eq_ok h
    obtain ⟨more, hmore, h⟩ := exists_of_bind_eq_ok h
    obtain ⟨first, hfirst, hmore⟩ := exists_of_bind_eq_ok hmore
    obtain ⟨last, hlast, hmore⟩ := exists_of_bind_eq_ok hmore
    obtain rfl : first ++ last = more := Except.ok.inj hmore
    obtain rfl : second ++ (first ++ last) = events := Except.ok.inj h
    refine ⟨first ++ (second ++ last), ?_, fun slices => ?_⟩
    · rw [gather, gather, hfirst, hsecond, hlast]
      rfl
    · have hl := hr listener (List.mem_cons_of_mem _ List.mem_cons_self)
      have hl' := hr other List.mem_cons_self
      have htouches := touches_of_answerOf hl hfirst
      have htouches' := touches_of_answerOf hl' hsecond
      rw [← List.append_assoc, ← List.append_assoc, Slices.after_append, Slices.after_append,
        Slices.after_append, Slices.after_append]
      by_cases hs : sliceOf listener = sliceOf other
      · obtain rfl := sliceOf_injective hl hl' hs
        obtain rfl := Except.ok.inj (hfirst.symm.trans hsecond)
        rfl
      · exact congrArg (Slices.after · last) (htouches'.comm htouches (Ne.symm hs) slices)
  | @trans order middle other hp _ ih ih' =>
    obtain ⟨events', hmiddle, hafter⟩ := ih hr h
    obtain ⟨events'', hother, hafter'⟩ := ih' (fun l hl => hr l (hp.mem_iff.mpr hl)) hmiddle
    exact ⟨events'', hother, fun slices => (hafter' slices).trans (hafter slices)⟩

end Workbench

namespace Store

variable {store : Store}

/-- Once the frame is held, the other listeners of a step may hear it in any order. -/
theorem hearAll_perm (h : store.Wired) (hu : store.Unwatched) {frame : Frame}
    (hh : store.bench.held = some frame) {events : List Event}
    (hg : store.bench.gather Workbench.readers = .ok events) (depth : Nat) {order : List Listener}
    (hp : order.Perm Workbench.readers) :
    ∃ last, (hearAll (depth + 1) .tick order).run store = .ok () last
      ∧ last.bench.core = (store.bench.takeAll events).core := by
  -- in every order the same readers hear the step, and none of them sees what another one causes
  have hr : ∀ listener ∈ order, listener ∈ Workbench.readers := fun _ hl => hp.mem_iff.mp hl
  obtain ⟨events', hgather, hafter⟩ := Workbench.gather_perm hp.symm (fun _ hl => hl) hg
  obtain ⟨lines, found, fault, hhear, -, hfound⟩ := Workbench.hearing_readers hr hh
  have hrun := hearAll_run depth (fun l hl => quiet_of_reader (hr l hl)) h hu
  rw [hhear] at hrun
  cases fault with
  | some fault => cases hgather.symm.trans hfound
  | none =>
    obtain rfl : events' = found := Except.ok.inj (hgather.symm.trans hfound)
    refine ⟨_, hrun, ?_⟩
    show ((store.bench.takeAll events').logged lines).core = _
    rw [Workbench.takeAll, Workbench.takeAll, hafter]
    rfl

end Store

namespace Session

variable {session : Session} {base : Base} {job : Job} {turns : List Turn}

/-! ### Steps of a session -/

/-- The engine has a turn only if there is something to serve. -/
theorem busy_of_engine {service : Service} (hp : Paced service job turns)
    (he : .engine ∈ turns) : service = .busy := by
  have hraceTurns : .engine ∉ job.raceTurns := by
    rw [Job.raceTurns]
    split
    · simp
    · split <;> simp
  have hmark {mark : List Turn} (hm : Mark service job.cycle.run mark) (he : .engine ∈ mark) :
      service = .busy := by
    generalize job.cycle.run = run at hm
    cases hm with
    | queued => simp at he
    | served => rfl
    | lost => cases he
  -- by the order of the turns to come, of which one at most is the engine's
  cases hp with
  | ahead hm => exact hmark hm ((List.mem_append.mp he).resolve_right hraceTurns)
  | behind hm => exact hmark hm ((List.mem_append.mp he).resolve_left hraceTurns)
  | finished => exact absurd ((List.mem_cons.mp he).resolve_left fun h => by cases h) hraceTurns
  | decided _ _ _ _ ht => rcases ht with rfl | ⟨-, rfl | rfl⟩ <;> simp at he
  | doomed => simp at he
  | doomedServed _ hb => exact hb
  | dropped => simp at he

/-- When the engine has a turn, a command is under way and a request is to be served. -/
theorem exists_work_of_engine (h : Stage session) (ht : session.turns = .engine :: turns) :
    ∃ base job, session = Base.work base job (.engine :: turns) ∧ job.Sound base
      ∧ base.service = .busy := by
  cases h with
  | rest => cases ht
  | handling => cases ht
  | answered => cases ht
  | @work base job all h hp =>
    obtain rfl : all = .engine :: turns := ht
    exact ⟨base, job, rfl, h, busy_of_engine hp List.mem_cons_self⟩
  | @ending base host reply settled running before command interrupted _ _ hbefore =>
    have ht : before ++ [if settled then Turn.caller else .reply] = .engine :: turns := ht
    -- the turns that are left over when a command ends are of the race and of the caller
    cases before with
    | nil => cases settled <;> cases ht
    | cons turn before =>
      obtain ⟨rfl, -⟩ := List.cons.inj ht
      rcases hbefore _ List.mem_cons_self with h | h <;> cases h

/-- The engine processes a step, whether somebody waits for it or not. -/
theorem serve_ok (h : job.Sound base) (hb : base.service = .busy) {events : List Event}
    (hp : base.bench.passage = .ok events) :
    (base.work job turns).serve.bench.core = (base.bench.past events).core
      ∧ (base.work job turns).serve.store.published = events.reverse ++ base.published := by
  by_cases hr : job.cycle.run.takers = []
  · obtain ⟨lines, hserve⟩ : ∃ lines, (base.work job turns).serve = _ :=
      serve_unawaited h.sound hb hr hp
    rw [hserve]
    exact ⟨rfl, rfl⟩
  · cases hw : job.cycle.run with
    | waiting ticket pursuit =>
      obtain ⟨lines, hserve⟩ : ∃ lines, (base.work job turns).serve = _ :=
        serve_awaited h hb hw hp
      rw [hserve]
      exact ⟨rfl, rfl⟩
    | _ => exact absurd (by rw [hw]; rfl) hr

/-- A turn of the engine that does not halt it publishes the events of the step. -/
theorem exists_passage_of_turn (h : Stage session) (ht : session.turns = .engine :: turns)
    {next : Session} (hn : session.step? = some next) (ho : ∀ fault, next.engine ≠ .halted fault) :
    session.bench.Poised ∧ ∃ events, session.bench.passage = .ok events ∧
      next.bench.core = (session.bench.past events).core ∧
      next.store.published = events.reverse ++ session.store.published := by
  obtain ⟨base, job, rfl, hsound, hb⟩ := exists_work_of_engine h ht
  have hpoised := hsound.sound.poised (Base.isOpen_of_busy hb)
  obtain rfl : (base.work job turns).serve = next :=
    Option.some.inj ((step_work .engine).symm.trans hn)
  refine ⟨hpoised, ?_⟩
  cases hp : base.bench.passage with
  | ok events => exact ⟨events, hp, serve_ok hsound hb hp⟩
  | error fault =>
    obtain ⟨lines, events, -, hserve⟩ : ∃ lines events, _ ∧ (base.work job turns).serve = _ :=
      serve_stall hsound.sound hb hp
    exact absurd (congrArg Session.engine hserve) (ho fault)

/-- In a session whose engine has not halted, no frame is held between two turns. -/
theorem held_of_stage (h : Stage session) (ho : ∀ fault, session.engine ≠ .halted fault) :
    session.bench.held = none := by
  have hopen {base : Base} (ho : ∀ fault, base.service.engine base.channel ≠ .halted fault) :
      base.service.isOpen = true := by
    cases hs : base.service with
    | halted fault => exact absurd (congrArg (Service.engine base.channel) hs) (ho fault)
    | _ => rfl
  cases h with
  | rest h => exact h.sound.held (hopen ho)
  | handling h => exact h.held (hopen ho)
  | work h => exact h.sound.held (hopen ho)
  | ending h => exact h.sound.held (hopen ho)
  | answered h => exact h.sound.held (hopen ho)

/-- **Every step is read in one program.**  Let the engine take a turn in which it processes a step.
The jump, the tree and the bindings that it publishes are those that one program tells, and this is
the owner of the step before the turn, whatever frame the step enters or leaves meanwhile.  Between
two turns, readings are made in the frame that is current then.  Once the frame is held, the other
listeners of the step may hear it in any order: the same becomes of the slices. -/
theorem step_owner (h : Reachable session) (ht : session.turns = .engine :: turns) {step : Step}
    (hstep : session.bench.step = some step) {next : Session} (hn : session.step? = some next)
    (ho : ∀ fault, next.engine ≠ .halted fault) :
    (∃ jump frames bound,
      step.jumpIn (session.bench.owner step) = .ok jump ∧ Workbench.FrameOf step frames ∧
      step.assignmentIn (session.bench.owner step) = .ok bound ∧
      next.store.published
        = (.tick :: (Workbench.eventsOfJump jump ++ frames ++ bound)
            ++ [session.bench.closing]).reverse ++ session.store.published) ∧
    (∀ later, Reachable later → (∀ fault, later.engine ≠ .halted fault) →
      later.bench.frameProgram = later.bench.programs.lookup later.bench.currentCall.address
        later.bench.currentCall.binary ∧
      ∀ step program, later.bench.step = some step → later.bench.program = .ok program →
        program = later.bench.owner step) ∧
    ∃ heard : Workbench,
      (∀ depth order, order.Perm Workbench.readers → ∃ last,
        (Store.hearAll (depth + 1) .tick order).run (session.store.onBench Workbench.hold)
          = .ok () last ∧ last.bench.core = heard) ∧
      next.bench.slices = heard.slices.after [session.bench.closing] := by
  -- the events of the turn are those of the step, since the engine has not halted
  obtain ⟨hpoised, events, hp, hcore, hpublished⟩ := exists_passage_of_turn h.stage ht hn ho
  obtain ⟨base, job, rfl, hsound, -⟩ := exists_work_of_engine h.stage ht
  refine ⟨?_, ?_, ?_⟩
  · obtain ⟨jump, frames, bound, hjump, hframes, hbound, hevents⟩ :=
      Workbench.exists_block_of_owner hpoised hstep hp
    exact ⟨jump, frames, bound, hjump, hframes, hbound, hevents ▸ hpublished⟩
  · intro later hlater ho
    have hheld := held_of_stage hlater.stage ho
    exact ⟨Workbench.frameProgram_eq hheld, fun step program hs hp =>
      Workbench.program_eq_owner hheld hs hp⟩
  · have hreads : base.bench.step = some step := hstep
    have hp : base.bench.passage = .ok events := hp
    rw [Workbench.passage, if_pos (Workbench.remaining_pos_of_step hreads)] at hp
    obtain ⟨found, hfound, rfl⟩ := exists_of_map_eq_ok hp
    -- what the listeners answer is the same whichever order they are in, once the frame is held
    have hwired : ((base.work job turns).store.onBench Workbench.hold).Wired :=
      ⟨rfl, hsound.sound.order, rfl⟩
    have hunwatched : ((base.work job turns).store.onBench Workbench.hold).Unwatched :=
      unwatched_takers (base.on base.bench.hold) job
    refine ⟨(base.bench.hold.takeAll found).core, fun depth order hperm =>
      Store.hearAll_perm hwired hunwatched rfl hfound depth hperm, ?_⟩
    rw [Workbench.slices_congr hcore]
    exact Slices.after_append base.bench.slices (.tick :: found) [base.bench.closing]

/-- The engine has the next turn, and processes the step under the cursor. -/
def servesNext (session : Session) : Bool :=
  match session.turns, session.bench.step, session.step? with
  | .engine :: _, some _, some next => match next.engine with
    | .halted _ => false
    | _ => true
  | _, _, _ => false

theorem exists_of_servesNext (h : session.servesNext = true) :
    ∃ turns step next, session.turns = .engine :: turns ∧ session.bench.step = some step ∧
      session.step? = some next ∧ ∀ fault, next.engine ≠ .halted fault := by
  rw [servesNext] at h
  split at h
  · rename_i turns step next hturns hstep hnext
    refine ⟨turns, step, next, hturns, hstep, hnext, fun fault heq => ?_⟩
    rw [heq] at h
    cases h
  · cases h

/-- The session of a brief trace when it is about to process its first step. -/
def briefServing : Session := runFor 2 (brief.give .advance (.ofCommand .advance))

theorem brief_step_owner : Reachable briefServing ∧
    ∃ turns step next, briefServing.turns = .engine :: turns ∧
      briefServing.bench.step = some step ∧ briefServing.step? = some next ∧
      (∀ fault, next.engine ≠ .halted fault) ∧
      ∃ jump frames bound,
        step.jumpIn (briefServing.bench.owner step) = .ok jump ∧
        Workbench.FrameOf step frames ∧
        step.assignmentIn (briefServing.bench.owner step) = .ok bound ∧
        next.store.published
          = (.tick :: (Workbench.eventsOfJump jump ++ frames ++ bound)
              ++ [briefServing.bench.closing]).reverse ++ briefServing.store.published := by
  have hreachable : Reachable briefServing :=
    ((Reachable.loaded loaded_brief).give loaded_brief.idle .advance).runFor 2
  have hserves : briefServing.servesNext = true := by decide +kernel
  obtain ⟨turns, step, next, hturns, hstep, hnext, hengine⟩ := exists_of_servesNext hserves
  exact ⟨hreachable, turns, step, next, hturns, hstep, hnext, hengine,
    (step_owner hreachable hturns hstep hnext hengine).1⟩

end Session

end TraceDebugger
