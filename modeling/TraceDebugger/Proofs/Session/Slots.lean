/-
The slots of the stack that variables are bound to.

A slot is counted from the bottom of the stack, but it is found from the top downwards, one for each
declaration of a node, and nothing compares their number with the height of the stack.

* `exists_rank_of_locationsAt` — the slots go by ranks, so none is above the stack, and no two
  variables share one;
* `slots_nonneg_iff` — no slot is below the stack exactly if there are as many words as
  declarations;
* `assigned_slots` — what a session assigns for a step that it processes.
-/
import TraceDebugger.Proofs.Session.Bindings

namespace TraceDebugger

/-! ### The slots of a node -/

namespace SyntaxTree

variable {tree : SyntaxTree} {node : Node} {count : Nat} {locations : Locations} {ids : List NodeId}
  {id other : NodeId} {index : Int}

/-- How many slots of the stack a node takes for its declarations. -/
def slotsOf (tree : SyntaxTree) (node : Node) : Nat :=
  match node.kind with
  | .function => ((tree.declarations node).toOption.map List.length).getD 0
  | .variableDeclaration => 1
  | _ => 0

theorem slotsOf_function (hkind : node.kind = .function) (hids : tree.declarations node = .ok ids) :
    tree.slotsOf node = ids.length := by
  rw [slotsOf, hkind, hids]
  rfl

/-- The slots that a node tells are those from the top of the stack downwards, one for each of its
declarations. -/
theorem exists_rank_of_locationsAt
    (h : tree.locationsAt node ((count : Int) - 1) = .ok (some locations))
    (hmem : (id, .stack index) ∈ locations) :
    ∃ rank : Nat, rank < tree.slotsOf node ∧ index = (count : Int) - 1 - (rank : Int) ∧
      ∀ other, (other, .stack index) ∈ locations → other = id := by
  obtain ⟨hkind, rfl⟩ | ⟨hkind, ids, hids, rfl⟩ | ⟨-, -, allocation, -, -, rfl⟩ :=
    locationsAt_cases h
  · obtain ⟨rfl, heq⟩ := Prod.mk.inj (List.mem_singleton.mp hmem)
    obtain rfl := Location.stack.inj heq
    refine ⟨0, by rw [slotsOf, hkind]; exact Nat.one_pos, by omega, fun other hother => ?_⟩
    exact (Prod.mk.inj (List.mem_singleton.mp hother)).1
  · obtain ⟨rank, hrank, heq⟩ := mem_slotsFrom (Locations.mem_of_mem_ofEntries hmem)
    obtain rfl := Location.stack.inj heq
    obtain ⟨hlt, -⟩ := List.getElem?_eq_some_iff.mp hrank
    refine ⟨rank, by rwa [slotsOf_function hkind hids], rfl, fun other hother => ?_⟩
    -- one slot has one rank, and one rank one declaration
    obtain ⟨rank', hrank', heq⟩ := mem_slotsFrom (Locations.mem_of_mem_ofEntries hother)
    have hsame := Location.stack.inj heq
    obtain rfl : rank' = rank := by omega
    exact Option.some.inj (hrank'.symm.trans hrank)
  · obtain ⟨⟨id, place⟩, -, heq⟩ := List.mem_map.mp hmem
    cases (Prod.mk.inj heq).2

/-- The last declaration of a function has the lowest slot. -/
theorem exists_lowest_of_locationsAt
    (h : tree.locationsAt node ((count : Int) - 1) = .ok (some locations))
    (hpos : 0 < tree.slotsOf node) :
    ∃ id, (id, .stack ((count : Int) - (tree.slotsOf node : Int))) ∈ locations := by
  obtain ⟨hkind, rfl⟩ | ⟨hkind, ids, hids, rfl⟩ | ⟨hkind, -⟩ := locationsAt_cases h
  · have hone : tree.slotsOf node = 1 := by rw [slotsOf, hkind]
    exact ⟨node.id, by rw [hone]; exact List.mem_singleton.mpr rfl⟩
  · -- no later entry can take the place of the last one, whatever its identity
    rw [slotsOf_function hkind hids] at hpos ⊢
    obtain rfl | ⟨front, last, rfl⟩ := ids.eq_nil_or_concat'
    · exact absurd hpos (Nat.lt_irrefl 0)
    · have hslot : (count : Int) - ((front ++ [last]).length : Int)
          = (count : Int) - 1 - (front.length : Int) := by
        rw [List.length_append, List.length_singleton]
        omega
      rw [hslot, slotsFrom_concat]
      exact ⟨last, Locations.last_mem_ofEntries _ _⟩
  · rw [slotsOf, hkind] at hpos
    exact absurd hpos (Nat.lt_irrefl 0)

/-- No slot that a node tells is below the stack exactly if there are as many words on it as
declarations in the node. -/
theorem slots_nonneg_iff (h : tree.locationsAt node ((count : Int) - 1) = .ok (some locations)) :
    (∀ id index, (id, .stack index) ∈ locations → 0 ≤ index) ↔ tree.slotsOf node ≤ count := by
  constructor
  · intro hnonneg
    rcases Nat.eq_zero_or_pos (tree.slotsOf node) with hzero | hpos
    · omega
    · obtain ⟨id, hlowest⟩ := exists_lowest_of_locationsAt h hpos
      have hle := hnonneg id _ hlowest
      omega
  · intro hle id index hmem
    obtain ⟨rank, hrank, rfl, -⟩ := exists_rank_of_locationsAt h hmem
    omega

/-- Different declarations of a function have the slots of their ranks. -/
theorem slots_of_nodup (hkind : node.kind = .function)
    (hids : tree.declarations node = .ok ids)
    (h : tree.locationsAt node ((count : Int) - 1) = .ok (some locations)) (hnodup : ids.Nodup) :
    locations = slotsFrom ((count : Int) - 1) 0 ids := by
  obtain ⟨hkind', -⟩ | ⟨-, ids', hids', rfl⟩ | ⟨hkind', -⟩ := locationsAt_cases h
  · cases hkind.symm.trans hkind'
  · obtain rfl := Except.ok.inj (hids.symm.trans hids')
    refine Locations.ofEntries_eq_self ?_
    rw [map_fst_slotsFrom]
    exact hnodup
  · cases hkind.symm.trans hkind'

end SyntaxTree

namespace Session

variable {session : Session} {turns : List Turn}

/-- **Which slots are assigned.**  Let the engine take a turn in which it processes a step, whatever
has been asked of the session since it loaded its trace.  No slot that the turn assigns is above the
words on the stack of the step, and no two variables share one; but the slots are on the stack
exactly if it has as many words as the node at which the step stands takes for its declarations.
Different declarations of a function have the slots of their ranks, counted from the top. -/
theorem assigned_slots (h : Reachable session) (ht : session.turns = .engine :: turns) {step : Step}
    (hstep : session.bench.step = some step) {next : Session} (hn : session.step? = some next)
    (ho : ∀ fault, next.engine ≠ .halted fault) :
    ∃ events : List Event, next.store.published = events.reverse ++ session.store.published ∧
      ∀ treeId locations, Event.assign treeId locations ∈ events →
        ∃ words tree node, step.StandsIn (session.bench.owner step) words tree node ∧
          treeId = some tree.index ∧
          (∀ id index, (id, .stack index) ∈ locations → index < (words.length : Int)) ∧
          (∀ id other index, (id, .stack index) ∈ locations → (other, .stack index) ∈ locations →
            other = id) ∧
          ((∀ id index, (id, .stack index) ∈ locations → 0 ≤ index) ↔
            tree.slotsOf node ≤ words.length) ∧
          ∀ ids, node.kind = .function → tree.declarations node = .ok ids → ids.Nodup →
            locations = SyntaxTree.slotsFrom ((words.length : Int) - 1) 0 ids := by
  obtain ⟨hpoised, events, hp, -, hpublished⟩ := exists_passage_of_turn h.stage ht hn ho
  -- what the turn assigns is what the owner of the step tells, and nothing else that it publishes
  obtain ⟨bound, hbound, hiff, -⟩ := Workbench.exists_bound_of_passage hpoised hstep hp
  refine ⟨events, hpublished, fun treeId locations hmem => ?_⟩
  obtain ⟨words, tree, node, hstands, htree, htold⟩ :=
    Step.exists_standsIn_of_mem hbound ((hiff treeId locations).mp hmem)
  refine ⟨words, tree, node, hstands, htree, fun id index hmem => ?_,
    fun id other index hmem hother => ?_, SyntaxTree.slots_nonneg_iff htold,
    fun ids hkind hids hnodup => SyntaxTree.slots_of_nodup hkind hids htold hnodup⟩
  · obtain ⟨rank, -, hindex, -⟩ := SyntaxTree.exists_rank_of_locationsAt htold hmem
    omega
  · obtain ⟨-, -, -, hone⟩ := SyntaxTree.exists_rank_of_locationsAt htold hmem
    exact hone other hother

/-! ### A function with more declarations than words -/

/-- A source of one function with two parameters. -/
def shallowSource : Json :=
  let parameterOf (id : Int) (src : String) : Json :=
    .obj [("nodeType", .str "VariableDeclaration"), ("id", .int id), ("src", .str src)]
  .obj [("nodeType", .str "SourceUnit"), ("id", .int 1), ("src", .str "0:60:0"),
    ("nodes", .arr [
      .obj [("nodeType", .str "FunctionDefinition"), ("id", .int 3), ("src", .str "15:42:0"),
        ("parameters", .obj [("nodeType", .str "ParameterList"), ("id", .int 4),
          ("src", .str "25:22:0"),
          ("parameters", .arr [parameterOf 5 "26:9:0", parameterOf 7 "37:9:0"])])]])]

/-- A program that stands at the function. -/
def shallowProgram : Program :=
  ⟨{ name := "A"
     sources :=
       [.ofSource "contract A \x7b\n  function f(uint256 a, uint256 b) public \x7b\x7d\n\x7d\n"]
     entries := [⟨15, 42, 0, .regular, 0⟩, ⟨15, 42, 0, .regular, 0⟩]
     instructionAt := [(0, 0), (1, 1)] }, [(0, found (SyntaxTree.ofJson 0 shallowSource))]⟩

/-- The steps with which a call enters the function, one word on the stack. -/
def shallowSteps : List Step :=
  [{ pc := 0, op := "JUMPDEST", stack := some ["26121ff0"] },
    { pc := 1, op := "STOP", stack := some ["26121ff0"] }]

/-- A session that has loaded that call. -/
def shallow : Session :=
  ((new { fallback := some shallowProgram } none 1).perform (.load shallowSteps none none)).1

theorem loaded_shallow : Loaded shallow := loaded_of_callTargets rfl _ _ _ _

/-- A parameter is assigned a slot below the stack. -/
theorem shallow_assigns_below :
    Loaded shallow ∧ shallow.Processes ∧
      (shallow.bench.recording.steps[0]?.bind (·.stack)).map List.length = some 1 ∧
      ∃ event ∈ (shallow.carryOut .advance).1.chronicle,
        event.payload.assignments = some [(.number 5, .stack 0), (.number 7, .stack (-1))] :=
  ⟨loaded_shallow, by decide +kernel, by decide +kernel, by decide +kernel⟩

/-- The session when it is about to process its first step. -/
def shallowServing : Session := runFor 2 (shallow.give .advance (.ofCommand .advance))

theorem shallow_assigned_slots : Reachable shallowServing ∧
    ∃ turns step next, shallowServing.turns = .engine :: turns ∧
      shallowServing.bench.step = some step ∧ shallowServing.step? = some next ∧
      (∀ fault, next.engine ≠ .halted fault) ∧
      ∃ events : List Event, next.store.published =
        events.reverse ++ shallowServing.store.published ∧
        ∀ treeId locations, Event.assign treeId locations ∈ events →
          ∃ words tree node, step.StandsIn (shallowServing.bench.owner step) words tree node ∧
            ((∀ id index, (id, .stack index) ∈ locations → 0 ≤ index) ↔
              tree.slotsOf node ≤ words.length) := by
  have hreachable : Reachable shallowServing :=
    ((Reachable.loaded loaded_shallow).give loaded_shallow.idle .advance).runFor 2
  -- the turn is evaluated only for whether the engine serves in it without halting
  have hserves : shallowServing.servesNext = true := by decide +kernel
  obtain ⟨turns, step, next, hturns, hstep, hnext, hengine⟩ := exists_of_servesNext hserves
  obtain ⟨events, hpublished, hassigned⟩ :=
    assigned_slots hreachable hturns hstep hnext hengine
  refine ⟨hreachable, turns, step, next, hturns, hstep, hnext, hengine, events, hpublished,
    fun treeId locations hmem => ?_⟩
  obtain ⟨words, tree, node, hstands, -, -, -, hiff, -⟩ := hassigned treeId locations hmem
  exact ⟨words, tree, node, hstands, hiff⟩

end Session

end TraceDebugger
