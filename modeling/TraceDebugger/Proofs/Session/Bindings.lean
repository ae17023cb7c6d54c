/-
The variables of a trace.

A step that has a stack tells where the variables live that its node declares, and nothing else
binds a variable.  So a variable lives where the latest step that knows of it has told.

* `bindingsAt_succ` — what one step makes of the bindings;
* `location?_eq_some_iff`, `location?_eq_none_iff` — where a variable lives, from the steps before;
* `bound_iff` — which variables live on the stack, and which in storage.
-/
import TraceDebugger.Proofs.Session.Comparison
import TraceDebugger.Proofs.Session.Declarations
import TraceDebugger.Proofs.Session.Depths

namespace TraceDebugger

open SyntaxTree (valueOf?)

namespace Bindings

/-- Where a variable of a tree lives, if it is bound. -/
def location? (bindings : Bindings) (treeId : TreeId) (id : NodeId) : Option Location :=
  valueOf? id (bindings.ofTree treeId)

theorem location?_assign (bindings : Bindings) (treeId : TreeId) (locations : Locations)
    (id : NodeId) :
    (bindings.assign treeId locations).location? treeId id
      = (valueOf? id (Locations.ofEntries locations)).or (bindings.location? treeId id) := by
  rw [location?, ofTree, assign, SyntaxTree.valueOf?_setEntry_self]
  exact Locations.valueOf?_update _ _ _

theorem ofTree_assign_of_ne {treeId other : TreeId} (h : other ≠ treeId) (bindings : Bindings)
    (locations : Locations) :
    (bindings.assign treeId locations).ofTree other = bindings.ofTree other := by
  rw [ofTree, assign, SyntaxTree.valueOf?_setEntry_of_ne h]
  rfl

theorem location?_assign_of_ne {treeId other : TreeId} (h : other ≠ treeId) (bindings : Bindings)
    (locations : Locations) (id : NodeId) :
    (bindings.assign treeId locations).location? other id = bindings.location? other id := by
  rw [location?, ofTree_assign_of_ne h, location?]

end Bindings

/-! ### One step -/

namespace Workbench

variable {bench : Workbench} {step : Step} {events : List Event}

theorem not_mem_frameOf {frames : List Event} (h : FrameOf step frames) (treeId : TreeId)
    (locations : Locations) : Event.assign treeId locations ∉ frames := by
  intro hmem
  cases h with
  | stay _ _ _ => cases hmem
  | _ => cases List.mem_singleton.mp hmem

theorem not_mem_eventsOfJump (jump : Jump) (treeId : TreeId) (locations : Locations) :
    Event.assign treeId locations ∉ eventsOfJump jump := by
  intro hmem
  cases jump with
  | into => cases List.mem_singleton.mp hmem
  | out => cases List.mem_singleton.mp hmem
  | _ => cases hmem

theorem assign_ne_closing (bench : Workbench) (treeId : TreeId) (locations : Locations) :
    Event.assign treeId locations ≠ bench.closing := by
  intro heq
  rw [closing] at heq
  split at heq <;> cases heq

theorem bindings_after_frameOf {frames : List Event} (h : FrameOf step frames) (slices : Slices) :
    (slices.after frames).bindings = slices.bindings := by
  cases h <;> rfl

theorem bindings_after_closing (bench : Workbench) (slices : Slices) :
    (slices.after [bench.closing]).bindings = slices.bindings := by
  rw [closing]
  split <;> rfl

/-- The events of a step bind what its owner tells, and no more. -/
theorem exists_bound_of_passage (h : bench.Poised) (hs : bench.step = some step)
    (hp : bench.passage = .ok events) :
    ∃ bound, step.assignmentIn (bench.owner step) = .ok bound ∧
      (∀ treeId locations, Event.assign treeId locations ∈ events ↔
        Event.assign treeId locations ∈ bound) ∧
      ∃ slices : Slices, slices.bindings = bench.slices.bindings ∧
        (bench.past events).slices.bindings = (slices.after bound).bindings := by
  obtain ⟨jump, frames, bound, -, hframes, hbound, rfl⟩ := exists_block_of_owner h hs hp
  refine ⟨bound, hbound, fun treeId locations => ?_,
    (((bench.slices.after [.tick]).after (eventsOfJump jump)).after frames), ?_, ?_⟩
  · rw [List.mem_append, List.mem_cons, List.mem_append, List.mem_append, List.mem_singleton]
    constructor
    · rintro ((heq | (hjump | hframe) | hmem) | hclosing)
      · cases heq
      · exact absurd hjump (not_mem_eventsOfJump jump treeId locations)
      · exact absurd hframe (not_mem_frameOf hframes treeId locations)
      · exact hmem
      · exact absurd hclosing (bench.assign_ne_closing treeId locations)
    · exact fun hmem => .inl (.inr (.inr hmem))
  · -- neither the jump nor the frames of a step touch the bindings
    rw [bindings_after_frameOf hframes, Slices.after_eventsOfJump]
    rfl
  · show (bench.slices.after _).bindings = _
    rw [List.cons_append, Slices.after_cons, Slices.after_append, Slices.after_append,
      Slices.after_append, bindings_after_closing]

end Workbench

namespace Session

variable {start : Workbench} {base base' : Base} {ticket ticket' : Ticket}
  {origin here session : Session} {position : Nat} {treeId treeId' : TreeId}
  {locations locations' : Locations} {id : NodeId} {location : Location} {step : Step}
  {events : List Event} {words words' : List String} {tree tree' : SyntaxTree} {node node' : Node}

/-- The step at a position has a stack, and stands at a node of a tree of its program. -/
def StandsAt (session : Session) (position : Nat) (words : List String) (tree : SyntaxTree)
    (node : Node) : Prop :=
  ∃ step, session.bench.recording.steps[position]? = some step ∧
    step.StandsIn ((session.viewAt position).owner step) words tree node

theorem Passes.standsAt_iff (h : session.Passes position step events) :
    session.StandsAt position words tree node ↔
      step.StandsIn ((session.viewAt position).owner step) words tree node := by
  constructor
  · rintro ⟨step', hstep', hstands⟩
    obtain rfl := Option.some.inj (h.isStep.symm.trans hstep')
    exact hstands
  · exact fun hstands => ⟨step, h.isStep, hstands⟩

/-- There is one node at which a step stands. -/
theorem StandsAt.unique (h : session.StandsAt position words tree node)
    (h' : session.StandsAt position words' tree' node') :
    words' = words ∧ tree' = tree ∧ node' = node := by
  obtain ⟨step, hstep, hstands⟩ := h
  obtain ⟨step', hstep', hstands'⟩ := h'
  obtain rfl := Option.some.inj (hstep.symm.trans hstep')
  exact hstands.unique hstands'

/-- The step at a position tells where variables of a tree live. -/
def Assigns (session : Session) (position : Nat) (treeId : TreeId) (locations : Locations) : Prop :=
  ∃ words tree node, session.StandsAt position words tree node ∧ treeId = some tree.index ∧
    tree.locationsAt node ((words.length : Int) - 1) = .ok (some locations)

theorem Assigns.unique (h : session.Assigns position treeId locations)
    (h' : session.Assigns position treeId' locations') :
    treeId' = treeId ∧ locations' = locations := by
  obtain ⟨words, tree, node, hstands, rfl, hlocations⟩ := h
  obtain ⟨words', tree', node', hstands', rfl, hlocations'⟩ := h'
  obtain ⟨rfl, rfl, rfl⟩ := hstands.unique hstands'
  exact ⟨rfl, Option.some.inj (Except.ok.inj (hlocations'.symm.trans hlocations))⟩

/-- What the owner of a step tells is what the step assigns. -/
theorem Passes.assigns_or (h : session.Passes position step events) {bound : List Event}
    (hb : step.assignmentIn ((session.viewAt position).owner step) = .ok bound) :
    (∃ treeId locations, bound = [.assign treeId locations] ∧
      session.Assigns position treeId locations) ∨
    bound = [] ∧ ∀ treeId locations, ¬ session.Assigns position treeId locations := by
  -- a step may stand at no node, or at one that declares nothing
  by_cases hstands : ∃ words tree node, session.StandsAt position words tree node
  · obtain ⟨words, tree, node, hs⟩ := hstands
    rw [(h.standsAt_iff.mp hs).assignmentIn_eq] at hb
    obtain ⟨told, htold, rfl⟩ := exists_of_map_eq_ok hb
    cases told with
    | some locations => exact .inl ⟨_, locations, rfl, words, tree, node, hs, rfl, htold⟩
    | none =>
      refine .inr ⟨rfl, ?_⟩
      rintro treeId locations ⟨words', tree', node', hs', -, hlocations⟩
      obtain ⟨rfl, rfl, rfl⟩ := hs.unique hs'
      cases htold.symm.trans hlocations
  · refine .inr ⟨Step.assignmentIn_eq_nil hb fun words tree node hs =>
      hstands ⟨words, tree, node, h.standsAt_iff.mpr hs⟩, ?_⟩
    rintro treeId locations ⟨words, tree, node, hs, -⟩
    exact hstands ⟨words, tree, node, hs⟩

/-! ### Along a trace -/

/-- The bindings at a position. -/
def bindingsAt (session : Session) (position : Nat) : Bindings :=
  (session.viewAt position).slices.bindings

/-- The step at a position tells where a variable lives. -/
def Locates (session : Session) (position : Nat) (treeId : TreeId) (id : NodeId)
    (location : Location) : Prop :=
  ∃ locations, session.Assigns position treeId locations ∧
    valueOf? id (Locations.ofEntries locations) = some location

/-- Nothing is bound when a trace has been loaded. -/
theorem Loaded.bindingsAt_zero (hl : Loaded session) : session.bindingsAt 0 = {} := by
  obtain ⟨programs, checksum, depth, steps, address, binary, reply, h⟩ := hl.exists_load
  obtain ⟨addresses, hslices⟩ := slices_of_load h
  have hzero : session.bindingsAt 0 = session.bench.slices.bindings := rfl
  rw [hzero, hslices]
  cases hf : firstFrame address binary with
  | none => rfl
  | some frame => obtain ⟨address, rfl⟩ | ⟨binary, rfl⟩ := firstFrame_cases hf <;> rfl

section Run

variable (hl : Loaded session) (hp : session.Processes)

include hl hp

/-- A step binds what it assigns, and leaves the bindings as they are if it assigns nothing. -/
theorem bindingsAt_succ (hlt : position < session.traceLength) :
    (∃ treeId locations, session.Assigns position treeId locations ∧
      session.bindingsAt (position + 1) = (session.bindingsAt position).assign treeId locations) ∨
    (∀ treeId locations, ¬ session.Assigns position treeId locations) ∧
      session.bindingsAt (position + 1) = session.bindingsAt position := by
  obtain ⟨step, events, h⟩ := exists_passage hl hp hlt
  obtain ⟨bound, hbound, -, slices, hslices, hafter⟩ :=
    Workbench.exists_bound_of_passage h.poised h.reads h.passage
  have hnext : session.bindingsAt (position + 1) = (slices.after bound).bindings :=
    (congrArg Slices.bindings (Workbench.slices_congr h.next)).trans hafter
  have hhere : slices.bindings = session.bindingsAt position := hslices
  rw [hnext, ← hhere]
  obtain ⟨treeId, locations, rfl, hassigns⟩ | ⟨rfl, hnot⟩ := h.assigns_or hbound
  · exact .inl ⟨treeId, locations, hassigns, rfl⟩
  · exact .inr ⟨hnot, rfl⟩

/-- A variable that a step locates lives there after the step. -/
theorem Locates.location?_succ (hlt : position < session.traceLength)
    (h : session.Locates position treeId id location) :
    (session.bindingsAt (position + 1)).location? treeId id = some location := by
  obtain ⟨locations, hassigns, hfound⟩ := h
  obtain ⟨treeId', locations', hassigns', hnext⟩ | ⟨hnot, -⟩ := bindingsAt_succ hl hp hlt
  · obtain ⟨rfl, rfl⟩ := hassigns'.unique hassigns
    rw [hnext, Bindings.location?_assign, hfound]
    rfl
  · exact absurd hassigns (hnot _ _)

/-- A variable that a step does not locate lives where it lived before. -/
theorem location?_succ_of_not (hlt : position < session.traceLength)
    (h : ∀ location, ¬ session.Locates position treeId id location) :
    (session.bindingsAt (position + 1)).location? treeId id
      = (session.bindingsAt position).location? treeId id := by
  obtain ⟨treeId', locations, hassigns, hnext⟩ | ⟨-, hnext⟩ := bindingsAt_succ hl hp hlt
  · rw [hnext]
    by_cases htree : treeId = treeId'
    · subst htree
      rw [Bindings.location?_assign]
      cases hfound : valueOf? id (Locations.ofEntries locations) with
      | none => rfl
      | some location => exact absurd ⟨locations, hassigns, hfound⟩ (h location)
    · exact Bindings.location?_assign_of_ne htree _ _ _
  · rw [hnext]

/-- **A variable lives where the latest step that locates it has told.** -/
theorem location?_eq_some_iff (hle : position ≤ session.traceLength) :
    (session.bindingsAt position).location? treeId id = some location ↔
      ∃ latest, latest < position ∧ session.Locates latest treeId id location ∧
        ∀ later, latest < later → later < position →
          ∀ other, ¬ session.Locates later treeId id other := by
  induction position with
  | zero =>
    rw [hl.bindingsAt_zero]
    refine ⟨fun h => ?_, fun ⟨_, hlt, _⟩ => absurd hlt (Nat.not_lt_zero _)⟩
    cases h
  | succ position ih =>
    by_cases hnone : ∀ other, ¬ session.Locates position treeId id other
    · -- what was told before still counts
      rw [location?_succ_of_not hl hp hle hnone, ih (Nat.le_of_lt hle)]
      constructor
      · rintro ⟨latest, hlt, hlocates, hlast⟩
        refine ⟨latest, Nat.lt_succ_of_lt hlt, hlocates, fun later hlater hle => ?_⟩
        rcases Nat.lt_succ_iff_lt_or_eq.mp hle with hless | rfl
        · exact hlast later hlater hless
        · exact hnone
      · rintro ⟨latest, hlt, hlocates, hlast⟩
        rcases Nat.lt_succ_iff_lt_or_eq.mp hlt with hless | rfl
        · exact ⟨latest, hless, hlocates,
            fun later hlater hlt => hlast later hlater (Nat.lt_succ_of_lt hlt)⟩
        · exact absurd hlocates (hnone location)
    · -- this step is the latest
      obtain ⟨other, hother⟩ := not_forall_not.mp hnone
      rw [hother.location?_succ hl hp hle]
      constructor
      · intro heq
        obtain rfl := Option.some.inj heq
        exact ⟨position, Nat.lt_succ_self position, hother, fun later hlater hle => by omega⟩
      · rintro ⟨latest, hlt, hlocates, hlast⟩
        rcases Nat.lt_succ_iff_lt_or_eq.mp hlt with hless | rfl
        · exact absurd hother (hlast position hless (Nat.lt_succ_self position) other)
        · exact (hother.location?_succ hl hp hle).symm.trans (hlocates.location?_succ hl hp hle)

/-- A variable is unbound as long as no step has located it. -/
theorem location?_eq_none_iff (hle : position ≤ session.traceLength) :
    (session.bindingsAt position).location? treeId id = none ↔
      ∀ earlier, earlier < position → ∀ location, ¬ session.Locates earlier treeId id location := by
  -- on the position; a step that locates the variable binds it for good
  induction position with
  | zero =>
    rw [hl.bindingsAt_zero]
    exact ⟨fun _ _ hlt => absurd hlt (Nat.not_lt_zero _), fun _ => rfl⟩
  | succ position ih =>
    by_cases hnone : ∀ other, ¬ session.Locates position treeId id other
    · rw [location?_succ_of_not hl hp hle hnone, ih (Nat.le_of_lt hle)]
      constructor
      · intro h earlier hlt
        rcases Nat.lt_succ_iff_lt_or_eq.mp hlt with hless | rfl
        · exact h earlier hless
        · exact hnone
      · exact fun h earlier hlt => h earlier (Nat.lt_succ_of_lt hlt)
    · obtain ⟨other, hother⟩ := not_forall_not.mp hnone
      rw [hother.location?_succ hl hp hle]
      refine ⟨fun h => ?_, fun h => absurd hother (h position (Nat.lt_succ_self position) other)⟩
      cases h

end Run

/-! ### On the stack and in storage -/

/-- The node at which a step stands declares a variable on the stack. -/
def Declares (session : Session) (position : Nat) (treeId : TreeId) (id : NodeId) : Prop :=
  ∃ words tree node, session.StandsAt position words tree node ∧ treeId = some tree.index ∧
    tree.Declares node id

/-- A step stands at a contract that has a variable among the state variables of its scope. -/
def Holds (session : Session) (position : Nat) (treeId : TreeId) (id : NodeId) : Prop :=
  ∃ words tree node, session.StandsAt position words tree node ∧ treeId = some tree.index ∧
    tree.Holds node id

theorem Declares.not_holds (h : session.Declares position treeId id) :
    ¬ session.Holds position treeId id := by
  obtain ⟨words, tree, node, hstands, -, hdeclares⟩ := h
  rintro ⟨words', tree', node', hstands', -, hholds⟩
  obtain ⟨-, rfl, rfl⟩ := hstands.unique hstands'
  exact hdeclares.not_holds hholds

/-- A step locates a variable on the stack, or in storage. -/
theorem Locates.cases (h : session.Locates position treeId id location) :
    (∃ index, location = .stack index) ∧ session.Declares position treeId id ∨
      (∃ place, location = .storage place) ∧ session.Holds position treeId id := by
  obtain ⟨locations, ⟨words, tree, node, hstands, htree, hlocations⟩, hfound⟩ := h
  cases location with
  | stack index =>
    exact .inl ⟨⟨index, rfl⟩, words, tree, node, hstands, htree,
      (SyntaxTree.stack_iff_of_locationsAt hlocations).mp ⟨index, hfound⟩⟩
  | storage place =>
    exact .inr ⟨⟨place, rfl⟩, words, tree, node, hstands, htree,
      (SyntaxTree.storage_iff_of_locationsAt hlocations).mp ⟨place, hfound⟩⟩

section Run

variable (hl : Loaded session) (hp : session.Processes)

include hl hp

/-- A step that stands at a node which declares variables assigns their locations. -/
theorem StandsAt.exists_assigns (h : session.StandsAt position words tree node)
    (hkind : node.kind ≠ .other) :
    ∃ locations, session.Assigns position (some tree.index) locations ∧
      tree.locationsAt node ((words.length : Int) - 1) = .ok (some locations) := by
  obtain ⟨hlt, -⟩ := List.getElem?_eq_some_iff.mp h.choose_spec.1
  obtain ⟨step, events, hpasses⟩ := exists_passage hl hp hlt
  obtain ⟨bound, hbound, -⟩ :=
    Workbench.exists_bound_of_passage hpasses.poised hpasses.reads hpasses.passage
  obtain ⟨locations, htold⟩ := (hpasses.standsAt_iff.mp h).exists_locationsAt hbound hkind
  exact ⟨locations, ⟨words, tree, node, h, rfl, htold⟩, htold⟩

/-- A variable that is declared on the stack is located there. -/
theorem Declares.exists_locates (h : session.Declares position treeId id) :
    ∃ index, session.Locates position treeId id (.stack index) := by
  obtain ⟨words, tree, node, hstands, rfl, hdeclares⟩ := h
  obtain ⟨locations, hassigns, htold⟩ := hstands.exists_assigns hl hp hdeclares.kind_ne
  obtain ⟨index, hindex⟩ := (SyntaxTree.stack_iff_of_locationsAt htold).mpr hdeclares
  exact ⟨index, locations, hassigns, hindex⟩

/-- A state variable in the scope of a contract is located in storage. -/
theorem Holds.exists_locates (h : session.Holds position treeId id) :
    ∃ place, session.Locates position treeId id (.storage place) := by
  obtain ⟨words, tree, node, hstands, rfl, hholds⟩ := h
  obtain ⟨locations, hassigns, htold⟩ := hstands.exists_assigns hl hp hholds.kind_ne
  obtain ⟨place, hplace⟩ := (SyntaxTree.storage_iff_of_locationsAt htold).mpr hholds
  exact ⟨place, locations, hassigns, hplace⟩

/-- Once a variable has been located it lives where a step has told that is no earlier. -/
theorem Locates.exists_latest {earlier : Nat} (h : session.Locates earlier treeId id location)
    (hlt : earlier < position) (hle : position ≤ session.traceLength) :
    ∃ latest found, earlier ≤ latest ∧ latest < position ∧
      session.Locates latest treeId id found ∧
      (session.bindingsAt position).location? treeId id = some found := by
  cases hfound : (session.bindingsAt position).location? treeId id with
  | none => exact absurd h ((location?_eq_none_iff hl hp hle).mp hfound earlier hlt _)
  | some found =>
    obtain ⟨latest, hlatest, hlocates, hlast⟩ := (location?_eq_some_iff hl hp hle).mp hfound
    refine ⟨latest, found, Nat.le_of_not_lt fun hless => ?_, hlatest, hlocates, rfl⟩
    exact hlast earlier hless hlt _ h

/-- A variable lives on the stack exactly if it has been declared there, and has not been among the
state variables of a contract since then. -/
theorem location?_stack_iff (hle : position ≤ session.traceLength) :
    (∃ index, (session.bindingsAt position).location? treeId id = some (.stack index)) ↔
      ∃ earlier, earlier < position ∧ session.Declares earlier treeId id ∧
        ∀ later, earlier < later → later < position → ¬ session.Holds later treeId id := by
  constructor
  · rintro ⟨index, hindex⟩
    obtain ⟨latest, hlt, hlocates, hlast⟩ := (location?_eq_some_iff hl hp hle).mp hindex
    obtain ⟨-, hdeclares⟩ | ⟨⟨place, hplace⟩, -⟩ := hlocates.cases
    · refine ⟨latest, hlt, hdeclares, fun later hlater hle hholds => ?_⟩
      obtain ⟨place, hplace⟩ := hholds.exists_locates hl hp
      exact hlast later hlater hle _ hplace
    · cases hplace
  · rintro ⟨earlier, hlt, hdeclares, hlast⟩
    obtain ⟨index, hindex⟩ := hdeclares.exists_locates hl hp
    -- whatever has told last, it was no contract after the declaration
    obtain ⟨latest, found, hle', hlatest, hlocates, hfound⟩ := hindex.exists_latest hl hp hlt hle
    obtain ⟨⟨index, rfl⟩, -⟩ | ⟨-, hholds⟩ := hlocates.cases
    · exact ⟨index, hfound⟩
    · obtain rfl | hless := Nat.eq_or_lt_of_le hle'
      · exact absurd hholds hdeclares.not_holds
      · exact absurd hholds (hlast latest hless hlatest)

/-- It lives in storage exactly if it has been among the state variables of a contract, and has not
been declared on the stack since then. -/
theorem location?_storage_iff (hle : position ≤ session.traceLength) :
    (∃ place, (session.bindingsAt position).location? treeId id = some (.storage place)) ↔
      ∃ earlier, earlier < position ∧ session.Holds earlier treeId id ∧
        ∀ later, earlier < later → later < position → ¬ session.Declares later treeId id := by
  constructor
  · rintro ⟨place, hplace⟩
    obtain ⟨latest, hlt, hlocates, hlast⟩ := (location?_eq_some_iff hl hp hle).mp hplace
    obtain ⟨⟨index, hindex⟩, -⟩ | ⟨-, hholds⟩ := hlocates.cases
    · cases hindex
    · refine ⟨latest, hlt, hholds, fun later hlater hle hdeclares => ?_⟩
      obtain ⟨index, hindex⟩ := hdeclares.exists_locates hl hp
      exact hlast later hlater hle _ hindex
  · rintro ⟨earlier, hlt, hholds, hlast⟩
    obtain ⟨place, hplace⟩ := hholds.exists_locates hl hp
    -- the variable has been located since, and where it was located last it was not on the stack
    obtain ⟨latest, found, hle', hlatest, hlocates, hfound⟩ := hplace.exists_latest hl hp hlt hle
    obtain ⟨-, hdeclares⟩ | ⟨⟨place, rfl⟩, -⟩ := hlocates.cases
    · obtain rfl | hless := Nat.eq_or_lt_of_le hle'
      · exact absurd hholds hdeclares.not_holds
      · exact absurd hdeclares (hlast latest hless hlatest)
    · exact ⟨place, hfound⟩

end Run

/-- **Where variables live.**  Whatever has been asked of a session since it loaded a trace whose
steps are processed, and whatever variable of whatever tree is looked up, one in the scope of a
contract or another: it lives on the stack exactly if a step before the cursor stands at a node that
declares it there, its own declaration or a function, and no step since then stands at a contract
with the variable in its scope; it lives in storage exactly if a step stands at such a contract, and
none since then at a node that declares it; and it is unbound exactly if there is no step of either
kind.  That the variable is a state variable makes no difference to its declaration. -/
theorem bound_iff (hl : Loaded origin) (hp : origin.Processes) (ho : Onward origin here)
    (hi : here.caller = .idle) (hw : here.store.tripwires = []) (treeId : TreeId) (id : NodeId) :
    ((∃ index, here.bench.slices.bindings.location? treeId id = some (.stack index)) ↔
      ∃ earlier, earlier < here.cursor ∧ origin.Declares earlier treeId id ∧
        ∀ later, earlier < later → later < here.cursor → ¬ origin.Holds later treeId id) ∧
    ((∃ place, here.bench.slices.bindings.location? treeId id = some (.storage place)) ↔
      ∃ earlier, earlier < here.cursor ∧ origin.Holds earlier treeId id ∧
        ∀ later, earlier < later → later < here.cursor → ¬ origin.Declares later treeId id) ∧
    (here.bench.slices.bindings.location? treeId id = none ↔
      ∀ earlier, earlier < here.cursor →
        ¬ origin.Declares earlier treeId id ∧ ¬ origin.Holds earlier treeId id) := by
  obtain ⟨start, base₀, ticket₀, base, ticket, hs, hat₀, hcursor, hat⟩ :=
    ho.exists_both_at hl hp hi hw
  have hle : here.cursor ≤ origin.traceLength := At.cursor_le hs hat₀ hat
  have hbindings : here.bench.slices.bindings = origin.bindingsAt here.cursor :=
    congrArg Slices.bindings (hat₀.slices_eq hs hcursor hat)
  rw [hbindings]
  refine ⟨location?_stack_iff hl hp hle, location?_storage_iff hl hp hle, ?_⟩
  rw [location?_eq_none_iff hl hp hle]
  -- a variable is located at once by every step that declares it or has it in scope
  constructor
  · intro h earlier hlt
    refine ⟨fun hdeclares => ?_, fun hholds => ?_⟩
    · obtain ⟨index, hindex⟩ := hdeclares.exists_locates hl hp
      exact h earlier hlt _ hindex
    · obtain ⟨place, hplace⟩ := hholds.exists_locates hl hp
      exact h earlier hlt _ hplace
  · intro h earlier hlt location hlocates
    obtain ⟨hdeclares, hholds⟩ := h earlier hlt
    obtain ⟨-, hdeclares'⟩ | ⟨-, hholds'⟩ := hlocates.cases
    · exact hdeclares hdeclares'
    · exact hholds hholds'

/-! ### A run that reads a state variable -/

/-- A source of one contract with one public state variable. -/
def getterSource : Json :=
  .obj [("nodeType", .str "SourceUnit"), ("id", .int 1), ("src", .str "0:35:0"),
    ("nodes", .arr [
      .obj [("nodeType", .str "ContractDefinition"), ("id", .int 2), ("src", .str "0:34:0"),
        ("linearizedBaseContracts", .arr [.int 2]),
        ("nodes", .arr [
          .obj [("nodeType", .str "VariableDeclaration"), ("id", .int 3), ("src", .str "15:16:0"),
            ("stateVariable", .bool true),
            ("typeName", .obj [("nodeType", .str "ElementaryTypeName"),
              ("name", .str "uint256")])]])]])]

/-- A program whose first instruction stands at the contract, and the others at the variable. -/
def getterProgram : Program :=
  ⟨{ name := "A"
     sources := [.ofSource "contract A \x7b\n  uint256 public a;\n\x7d\n"]
     entries := [⟨0, 34, 0, .regular, 0⟩, ⟨15, 16, 0, .regular, 0⟩, ⟨15, 16, 0, .regular, 0⟩]
     instructionAt := [(0, 0), (1, 1), (2, 2)] }, [(0, found (SyntaxTree.ofJson 0 getterSource))]⟩

/-- The steps of a call of the function that the compiler makes for the variable. -/
def getterSteps : List Step :=
  [{ pc := 0, op := "PUSH1", stack := some [] }, { pc := 1, op := "SLOAD", stack := some ["a7"] },
    { pc := 2, op := "STOP", stack := some ["a7"] }]

/-- A session that has loaded that call. -/
def getter : Session :=
  ((new { fallback := some getterProgram } none 1).perform (.load getterSteps none none)).1

theorem loaded_getter : Loaded getter := loaded_of_callTargets rfl _ _ _ _

/-- The call is processed to its end, and leaves the variable first in storage and then on the
stack. -/
theorem run_getter :
    getter.Processes ∧ getter.traceLength = 3 ∧
      (getter.bindingsAt 1).location? (some 0) (.number 3) = some (.storage ⟨0, 0, 32⟩) ∧
      (getter.obey [.advance, .advance]).bench.slices.bindings.location? (some 0) (.number 3)
        = some (.stack 0) := by
  decide +kernel

/-- The first step stands at the contract with the variable in its scope. -/
theorem holds_getter : getter.Holds 0 (some 0) (.number 3) := by
  obtain ⟨hprocesses, hlength, hstorage, -⟩ := run_getter
  obtain ⟨earlier, hlt, hholds, -⟩ :=
    (location?_storage_iff loaded_getter hprocesses (by omega)).mp ⟨_, hstorage⟩
  obtain rfl : earlier = 0 := by omega
  exact hholds

/-- A state variable is bound to a slot of the stack where a step stands at its declaration. -/
theorem getter_bound_to_stack :
    Loaded getter ∧ getter.Processes ∧ getter.Holds 0 (some 0) (.number 3) ∧
      (getter.obey [.advance, .advance]).bench.slices.bindings.location? (some 0) (.number 3)
        = some (.stack 0) :=
  ⟨loaded_getter, run_getter.1, holds_getter, run_getter.2.2.2⟩

theorem getter_bound_iff :
    Loaded getter ∧ getter.Processes ∧ Onward getter (getter.obey [.advance, .advance]) ∧
      (getter.obey [.advance, .advance]).caller = .idle ∧
      (getter.obey [.advance, .advance]).store.tripwires = [] ∧
      ∃ earlier, earlier < (getter.obey [.advance, .advance]).cursor ∧
        getter.Declares earlier (some 0) (.number 3) := by
  have hprocesses := run_getter.1
  obtain ⟨honward, hidle, hwired⟩ := loaded_getter.onward_obey hprocesses [.advance, .advance]
  obtain ⟨earlier, hlt, hdeclares, -⟩ :=
    (bound_iff loaded_getter hprocesses honward hidle hwired (some 0) (.number 3)).1.mp
      ⟨0, run_getter.2.2.2⟩
  exact ⟨loaded_getter, hprocesses, honward, hidle, hwired, earlier, hlt, hdeclares⟩

end Session

end TraceDebugger
