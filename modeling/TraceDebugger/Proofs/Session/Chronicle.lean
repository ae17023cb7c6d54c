/-
What a command publishes.

A command is announced, and for each step that it passes there is one block of events: the request,
the tick, what follows from the step, and a tock or the end of the trace.  The end of the command is
announced last, and nothing else is published.

* `exists_answers`, `exists_block` — the events by which a step is processed tell its jump, its
  frame and its variables;
* `chronicle_carryOut` — what a command publishes, from its announcement to its end.
-/
import TraceDebugger.Proofs.Session.Positions

namespace TraceDebugger

namespace Workbench

variable {bench : Workbench} {step : Step}

/-- The events that tell a jump. -/
def eventsOfJump : Jump → List Event
  | .into => [.jump 1]
  | .out => [.jump (-1)]
  | _ => []

/-- The events that tell which frame a step enters or leaves. -/
inductive FrameOf (step : Step) : List Event → Prop
  | call (address : Option String) (h : Opcode.isCall step.op = true) : FrameOf step [.call address]
  | create (binary : Option String) (h : Opcode.isCreate step.op = true) :
      FrameOf step [.create binary]
  | leave (h : Opcode.isHalting step.op = true) : FrameOf step [.returnCall]
  | stay (hcall : Opcode.isCall step.op = false) (hcreate : Opcode.isCreate step.op = false)
      (hhalting : Opcode.isHalting step.op = false) : FrameOf step []

/-- A step has a stack, and its node declares something. -/
def Declares (bench : Workbench) (step : Step) : Prop :=
  step.stack.isSome ∧ ∃ node, bench.node = .ok (some node) ∧ node.kind ≠ .other

/-- The events that tell which variables a step defines. -/
inductive VariablesOf (bench : Workbench) (step : Step) : List Event → Prop
  | assign (tree : TreeId) (locations : Locations) (h : bench.Declares step) :
      VariablesOf bench step [.assign tree locations]
  | nothing (h : ¬ bench.Declares step) : VariablesOf bench step []

/-- The events that tell which frame a step enters or leaves, with what is read of the frame. -/
inductive FrameRead (bench : Workbench) (step : Step) : List Event → Prop
  | call {address : Option String} (h : Opcode.isCall step.op = true)
      (ha : bench.callAddress = .ok address) : FrameRead bench step [.call address]
  | create {binary : Option String} (h : Opcode.isCreate step.op = true)
      (hb : bench.createBinary = .ok binary) : FrameRead bench step [.create binary]
  | leave (h : Opcode.isHalting step.op = true) : FrameRead bench step [.returnCall]
  | stay (hcall : Opcode.isCall step.op = false) (hcreate : Opcode.isCreate step.op = false)
      (hhalting : Opcode.isHalting step.op = false) : FrameRead bench step []

theorem frameRead_of_frameEvents (hs : bench.step = some step) {events : List Event}
    (h : bench.frameEvents = .ok events) : bench.FrameRead step events := by
  rw [frameEvents, hs] at h
  dsimp only at h
  -- the classes of opcodes are asked for in this order, and no opcode is in two of them
  by_cases hcall : Opcode.isCall step.op = true
  · rw [if_pos hcall] at h
    obtain ⟨address, haddress, rfl⟩ := exists_of_map_eq_ok h
    exact .call hcall haddress
  · rw [if_neg hcall] at h
    by_cases hcreate : Opcode.isCreate step.op = true
    · rw [if_pos hcreate] at h
      obtain ⟨binary, hbinary, rfl⟩ := exists_of_map_eq_ok h
      exact .create hcreate hbinary
    · rw [if_neg hcreate] at h
      by_cases hhalting : Opcode.isHalting step.op = true
      · rw [if_pos hhalting] at h
        obtain rfl := Except.ok.inj h
        exact .leave hhalting
      · rw [if_neg hhalting] at h
        obtain rfl := Except.ok.inj h
        exact .stay (Bool.eq_false_iff.mpr hcall) (Bool.eq_false_iff.mpr hcreate)
          (Bool.eq_false_iff.mpr hhalting)

theorem frameOf_of_frameEvents (hs : bench.step = some step) {events : List Event}
    (h : bench.frameEvents = .ok events) : FrameOf step events := by
  cases frameRead_of_frameEvents hs h with
  | call hcall _ => exact .call _ hcall
  | create hcreate _ => exact .create _ hcreate
  | leave hhalting => exact .leave hhalting
  | stay hcall hcreate hhalting => exact .stay hcall hcreate hhalting

/-- A node stands in a tree. -/
theorem exists_tree_of_node {node : Node} (h : bench.node = .ok (some node)) :
    ∃ tree, bench.tree = .ok (some tree) := by
  rw [Workbench.node] at h
  obtain ⟨range, -, h⟩ := exists_of_bind_eq_ok h
  obtain ⟨tree, htree, h⟩ := exists_of_bind_eq_ok h
  cases tree with
  | some tree => exact ⟨tree, htree⟩
  | none => cases range <;> cases h

theorem locationsAt_eq_none_iff {tree : SyntaxTree} {node : Node} {top : Int}
    {found : Option Locations} (h : bench.locationsAt tree node top = .ok found) :
    found = none ↔ node.kind = .other := by
  rw [locationsAt] at h
  -- each of the three kinds that tell locations tells some, perhaps an empty list
  cases hkind : node.kind with
  | function =>
    rw [hkind] at h
    obtain ⟨locations, -, rfl⟩ := exists_of_map_eq_ok h
    simp
  | variableDeclaration =>
    rw [hkind] at h
    obtain rfl := Except.ok.inj h
    simp
  | contract =>
    rw [hkind] at h
    obtain ⟨members, -, h⟩ := exists_of_bind_eq_ok h
    obtain ⟨locations, -, rfl⟩ := exists_of_map_eq_ok h
    simp
  | other =>
    rw [hkind] at h
    obtain rfl := Except.ok.inj h
    simp

theorem variablesOf_of_bindingEvents (hs : bench.step = some step) {events : List Event}
    (h : bench.bindingEvents = .ok events) : VariablesOf bench step events := by
  rw [bindingEvents, hs] at h
  cases hstack : step.stack with
  | none =>
    rw [Option.bind_some, hstack] at h
    obtain rfl := Except.ok.inj h
    refine .nothing fun hd => ?_
    have hsome := hd.1
    rw [hstack] at hsome
    cases hsome
  | some words =>
    rw [Option.bind_some, hstack] at h
    dsimp only at h
    cases hnode : bench.node with
    | error fault =>
      rw [hnode] at h
      cases h
    | ok node =>
      cases node with
      | none =>
        have hnone : ¬ bench.Declares step := by
          rintro ⟨-, node, hsome, -⟩
          rw [hnode] at hsome
          cases hsome
        rw [hnode] at h
        cases htree : bench.tree with
        | error fault =>
          rw [htree] at h
          cases h
        | ok tree =>
          rw [htree] at h
          cases tree <;> (obtain rfl := Except.ok.inj h; exact .nothing hnone)
      | some node =>
        -- the step declares something unless the node is of another kind
        obtain ⟨tree, htree⟩ := exists_tree_of_node hnode
        rw [hnode, htree] at h
        obtain ⟨found, hfound, h⟩ := exists_of_bind_eq_ok h
        have hkind := locationsAt_eq_none_iff hfound
        cases found with
        | none =>
          obtain rfl := Except.ok.inj h
          refine .nothing ?_
          rintro ⟨-, node', hnode', hother⟩
          rw [hnode] at hnode'
          obtain rfl := Option.some.inj (Except.ok.inj hnode')
          exact hother (hkind.mp rfl)
        | some locations =>
          obtain ⟨treeId, -, h⟩ := exists_of_bind_eq_ok h
          obtain rfl := Except.ok.inj h
          refine .assign treeId locations ⟨by rw [hstack]; rfl, node, hnode, fun hother => ?_⟩
          cases hkind.mpr hother

theorem remaining_pos_of_step (hs : bench.step = some step) : 0 < bench.recording.remaining := by
  obtain ⟨hlt, -⟩ := List.getElem?_eq_some_iff.mp hs
  rw [Recording.remaining]
  omega

/-- The events by which a step is processed: its tick, what the listeners answer, and the event that
ends it. -/
theorem exists_answers (h : bench.Poised) (hs : bench.step = some step) {events : List Event}
    (hp : bench.passage = .ok events) :
    ∃ jump frames bound,
      bench.jump = .ok jump ∧ bench.frameEvents = .ok frames ∧ bench.bindingEvents = .ok bound ∧
      events = .tick :: (eventsOfJump jump ++ frames ++ bound) ++ [bench.closing] := by
  rw [passage, if_pos (remaining_pos_of_step hs)] at hp
  obtain ⟨found, hfound, rfl⟩ := exists_of_map_eq_ok hp
  -- holding the frame changes nothing that is read
  rw [consequences, ← gather_sight, sight_hold h.held, gather_sight] at hfound
  obtain ⟨jumps, hjumps, hfound⟩ := exists_of_bind_eq_ok hfound
  obtain ⟨jump, hjump, rfl⟩ := exists_of_map_eq_ok hjumps
  obtain ⟨rest, hrest, hfound⟩ := exists_of_bind_eq_ok hfound
  obtain ⟨frames, hframes, hrest⟩ := exists_of_bind_eq_ok hrest
  obtain ⟨last, hlast, hrest⟩ := exists_of_bind_eq_ok hrest
  obtain ⟨bound, hbound, hlast⟩ := exists_of_bind_eq_ok hlast
  obtain rfl : bound ++ [] = last := Except.ok.inj hlast
  obtain rfl : frames ++ (bound ++ []) = rest := Except.ok.inj hrest
  refine ⟨jump, frames, bound, hjump, hframes, hbound, ?_⟩
  obtain rfl : eventsOfJump jump ++ (frames ++ (bound ++ [])) = found := Except.ok.inj hfound
  rw [List.append_nil, List.append_assoc]

/-- They tell its jump, its frame and its variables. -/
theorem exists_block (h : bench.Poised) (hs : bench.step = some step) {events : List Event}
    (hp : bench.passage = .ok events) :
    ∃ jump frames bound,
      bench.jump = .ok jump ∧ FrameOf step frames ∧ VariablesOf bench step bound ∧
      events = .tick :: (eventsOfJump jump ++ frames ++ bound) ++ [bench.closing] := by
  obtain ⟨jump, frames, bound, hjump, hframes, hbound, hevents⟩ := exists_answers h hs hp
  exact ⟨jump, frames, bound, hjump, frameOf_of_frameEvents hs hframes,
    variablesOf_of_bindingEvents hs hbound, hevents⟩

end Workbench

namespace Session

variable {start : Workbench} {base base' : Base} {ticket ticket' : Ticket} {session here : Session}

/-- What a session has published, in order. -/
def chronicle (session : Session) : List Event := session.store.published.reverse

/-- The event that ends the step at a position. -/
def closingAt (session : Session) (position : Nat) : Event :=
  if position + 1 < session.traceLength then .tock else .endOfTrace

/-- A block of events tells how a session processes the step at a position. -/
def Tells (session : Session) (position : Nat) (block : List Event) : Prop :=
  ∃ step jump frames bound, session.bench.recording.steps[position]? = some step ∧
    (session.viewAt position).jump = .ok jump ∧ Workbench.FrameOf step frames ∧
    Workbench.VariablesOf (session.viewAt position) step bound ∧
    block = .next :: .tick :: (Workbench.eventsOfJump jump ++ frames ++ bound)
      ++ [session.closingAt position]

/-- The events by which a step is processed are the block that tells it. -/
theorem Passes.tells {position : Nat} {step : Step} {events : List Event}
    (h : session.Passes position step events) : session.Tells position (.next :: events) := by
  obtain ⟨jump, frames, bound, hjump, hframes, hbound, rfl⟩ :=
    Workbench.exists_block h.poised h.reads h.passage
  have hclosing : (session.viewAt position).closing = session.closingAt position := by
    have hiff : 1 < session.traceLength - position ↔ position + 1 < session.traceLength := by omega
    rw [Workbench.closing, h.remaining, closingAt]
    exact if_congr hiff rfl rfl
  refine ⟨step, jump, frames, bound, h.isStep, hjump, hframes, hbound, ?_⟩
  rw [hclosing]
  rfl

/-- What an order publishes, from its announcement to its end. -/
theorem At.exists_blocks (hs : Outset start) (h : At start base ticket session)
    (hc : session.cursor = 0) (h' : At start base' ticket' here) (order : Order) :
    ∃ blocks : List (List Event),
      (here.carryOut order).1.chronicle = here.chronicle
        ++ [order.event, .beginStep order.command] ++ blocks.flatten
        ++ [.endStep order.command false] ∧
      if here.cursor = session.traceLength then blocks = [[.next, .endOfTrace]]
      else here.cursor + blocks.length = (here.carryOut order).1.cursor ∧
        ∀ i block, blocks[i]? = some block → session.Tells (here.cursor + i) block := by
  obtain ⟨pursuit, blocks, reached, base'', ticket'', -, hruns, -, hnext, hleft⟩ :=
    h'.carryOut hs order
  have hlength := h.length_eq hs h' (Workbench.advanceBy_zero _)
  have hle := base'.bench.recording.cursor_le
  have hhere := h'.cursor_eq
  have hblocks := hruns.length_blocks h'.poised
  have hpos := List.length_pos_iff.mpr hruns.blocks_ne_nil
  refine ⟨blocks.map (.next :: ·), ?_, ?_⟩
  · rw [hnext.eq_rest, h'.eq_rest]
    show base''.published.reverse = base'.published.reverse ++ _ ++ _ ++ _
    rw [hleft.published, List.reverse_append, List.reverse_reverse, askedFor, List.flatMap_def]
    simp only [List.append_assoc]
  · rw [hhere]
    split
    case isTrue hend =>
      -- at the end there is one request, and the end of the trace is announced
      have hone : blocks.length = 1 := by omega
      obtain ⟨events, rfl⟩ := List.length_eq_one_iff.mp hone
      obtain ⟨there, hthere, hp⟩ := hruns.passage (i := 0) rfl
      obtain rfl := Except.ok.inj hthere
      have hover : base'.bench.recording.remaining = 0 := by
        rw [Recording.remaining]
        omega
      rw [Workbench.passage_of_finished hover] at hp
      obtain rfl := Except.ok.inj hp
      rfl
    case isFalse hbefore =>
      obtain ⟨-, -, hcursor⟩ := h'.poised.advanceBy hruns.advanceBy
      refine ⟨?_, ?_⟩
      · rw [hnext.cursor_of_core hleft.core, List.length_map, hcursor]
        omega
      · intro i block hi
        rw [List.getElem?_map] at hi
        obtain ⟨events, hevents, rfl⟩ := Option.map_eq_some_iff.mp hi
        obtain ⟨there, hthere, hp⟩ := hruns.passage hevents
        obtain ⟨hilt, -⟩ := List.getElem?_eq_some_iff.mp hevents
        have hposition : there.recording.cursor = base'.bench.recording.cursor + i := by
          rw [(h'.poised.advanceBy hthere).2.2]
          omega
        have hlt : there.recording.cursor < session.traceLength := by omega
        obtain ⟨step, events', hpasses⟩ := h.exists_passage hs hc hlt
        have hp' := (Workbench.passage_congr (h.core_viewAt hs h' hthere hc)).trans hp
        obtain rfl := Except.ok.inj (hpasses.passage.symm.trans hp')
        rw [← hposition]
        exact hpasses.tells

/-- **What a command publishes.** Wherever orders have led after a trace is loaded whose steps can
all be processed, a command publishes its announcement and its beginning, then one block for each
step that it passes, and its end; at the end of the trace, the announcement of that in place of the
steps. -/
theorem chronicle_carryOut (hl : Loaded session) (hp : session.Processes) (orders : List Order)
    (order : Order) :
    ((session.obey orders).carryOut order).2 = ⟨some (.ok (.flag true)), false⟩ ∧
    ∃ blocks : List (List Event),
      ((session.obey orders).carryOut order).1.chronicle = (session.obey orders).chronicle
        ++ [order.event, .beginStep order.command] ++ blocks.flatten
        ++ [.endStep order.command false] ∧
      if (session.obey orders).cursor = session.traceLength then blocks = [[.next, .endOfTrace]]
      else (session.obey orders).cursor + blocks.length
          = ((session.obey orders).carryOut order).1.cursor ∧
        ∀ i block, blocks[i]? = some block →
          session.Tells ((session.obey orders).cursor + i) block := by
  obtain ⟨start, base, ticket, hs, h, hcursor, -⟩ := hl.outset hp
  obtain ⟨⟨base', ticket', hreached⟩, -⟩ := At.obey hs orders h
  obtain ⟨-, -, -, -, -, -, -, houtcome, -⟩ := hreached.carryOut hs order
  exact ⟨houtcome, h.exists_blocks hs hcursor hreached order⟩

theorem brief_chronicle_carryOut :
    Loaded brief ∧ brief.Processes ∧ ∃ blocks : List (List Event),
      ((brief.obey []).carryOut .stepInto).1.chronicle = (brief.obey []).chronicle
        ++ [Order.stepInto.event, .beginStep .stepInto] ++ blocks.flatten
        ++ [.endStep .stepInto false] ∧
      if (brief.obey []).cursor = brief.traceLength then blocks = [[.next, .endOfTrace]]
      else (brief.obey []).cursor + blocks.length = ((brief.obey []).carryOut .stepInto).1.cursor ∧
        ∀ i block, blocks[i]? = some block → brief.Tells ((brief.obey []).cursor + i) block :=
  ⟨loaded_brief, processes_brief, (chronicle_carryOut loaded_brief processes_brief [] .stepInto).2⟩

end Session

end TraceDebugger
