/-
Where the variables of a node live.

The declaration of a variable tells the slot on top of the stack, a function tells one slot for each
of its declarations, from the top of the stack downwards, and a contract tells storage for the state
variables in its scope.

* `Locations.valueOf?_update` — entries that are put into a table count before those that it had;
* `functionParameters_eq` — the slots of a function, from its declarations;
* `locationsAt_cases` — the locations that a node tells;
* `stack_iff_of_locationsAt`, `storage_iff_of_locationsAt` — which variables it tells a slot of the
  stack, and which it tells storage;
* `Step.exists_standsIn_of_mem` — a step that publishes locations stands at the node that tells
  them.
-/
import TraceDebugger.Proofs.Session.Owner
import TraceDebugger.Proofs.Storage.Stability
import Mathlib.Data.List.Induction

namespace TraceDebugger

open SyntaxTree (valueOf? setEntry)

/-! ### Tables of locations -/

namespace Locations

variable {entries : Locations} {id : NodeId} {location : Location}

theorem update_append (table first second : Locations) :
    table.update (first ++ second) = (table.update first).update second :=
  List.foldl_append

theorem ofEntries_concat (entries : Locations) (entry : NodeId × Location) :
    ofEntries (entries ++ [entry]) = setEntry entry.1 entry.2 (ofEntries entries) :=
  update_append [] entries [entry]

/-- Entries that are put into a table count before those that it had. -/
theorem valueOf?_update (table entries : Locations) (id : NodeId) :
    valueOf? id (table.update entries) =
      (valueOf? id (ofEntries entries)).or (valueOf? id table) := by
  induction entries using List.reverseRecOn with
  | nil => rfl
  | append_singleton entries entry ih =>
    rw [update_append, ofEntries_concat]
    show valueOf? id (setEntry entry.1 entry.2 (table.update entries)) = _
    by_cases h : id = entry.1
    · subst h
      rw [SyntaxTree.valueOf?_setEntry_self, SyntaxTree.valueOf?_setEntry_self]
      rfl
    · rw [SyntaxTree.valueOf?_setEntry_of_ne h, SyntaxTree.valueOf?_setEntry_of_ne h, ih]

/-- What is in the table of some entries is one of them. -/
theorem mem_of_mem_ofEntries (h : (id, location) ∈ ofEntries entries) :
    (id, location) ∈ entries := by
  induction entries using List.reverseRecOn with
  | nil => cases h
  | append_singleton entries entry ih =>
    rw [ofEntries_concat] at h
    obtain heq | h := SyntaxTree.mem_setEntry h
    · exact List.mem_append_right _ (List.mem_singleton.mpr heq)
    · exact List.mem_append_left _ (ih h)

/-- The last of some entries is in their table. -/
theorem last_mem_ofEntries (entries : Locations) (entry : NodeId × Location) :
    entry ∈ ofEntries (entries ++ [entry]) := by
  rw [ofEntries_concat]
  exact SyntaxTree.mem_of_valueOf? (SyntaxTree.valueOf?_setEntry_self _ _ _)

/-- Every identity among some entries is found in their table. -/
theorem exists_valueOf?_ofEntries (h : (id, location) ∈ entries) :
    ∃ found, valueOf? id (ofEntries entries) = some found := by
  induction entries using List.reverseRecOn with
  | nil => cases h
  | append_singleton entries entry ih =>
    rw [ofEntries_concat]
    by_cases hid : id = entry.1
    · subst hid
      exact ⟨_, SyntaxTree.valueOf?_setEntry_self _ _ _⟩
    · rw [SyntaxTree.valueOf?_setEntry_of_ne hid]
      obtain h | h := List.mem_append.mp h
      · exact ih h
      · exact absurd (congrArg Prod.fst (List.mem_singleton.mp h)) hid

/-- Entries of different identities are their own table. -/
theorem ofEntries_eq_self (h : (entries.map Prod.fst).Nodup) : ofEntries entries = entries := by
  induction entries using List.reverseRecOn with
  | nil => rfl
  | append_singleton entries entry ih =>
    rw [List.map_append, List.nodup_append] at h
    obtain ⟨hfirst, -, hne⟩ := h
    rw [ofEntries_concat, ih hfirst]
    exact SyntaxTree.setEntry_of_not_mem
      (fun hmem => hne _ hmem _ (List.mem_singleton.mpr rfl) rfl) _

end Locations

/-! ### The slots of a function -/

namespace SyntaxTree

variable {tree : SyntaxTree} {node : Node} {top : Int} {locations : Locations} {id : NodeId}

/-- The declarations of a function: return parameters and then parameters. -/
def declarations (tree : SyntaxTree) (node : Node) : Except Fault (List NodeId) := do
  let results ← node.parameterPaths "returnParameters"
  let parameters ← node.parameterPaths "parameters"
  (results ++ parameters).mapM fun path => (tree.resolve path).map (·.id)

/-- The slots of some declarations, the first of which has that rank, from the top of the stack
downwards. -/
def slotsFrom (top : Int) (rank : Nat) (ids : List NodeId) : Locations :=
  (ids.zipIdx rank).map fun (id, rank) => (id, .stack (top - (rank : Int)))

theorem mem_slotsFrom {ids : List NodeId} {location : Location}
    (h : (id, location) ∈ slotsFrom top 0 ids) :
    ∃ rank : Nat, ids[rank]? = some id ∧ location = .stack (top - (rank : Int)) := by
  obtain ⟨⟨id, rank⟩, hmem, heq⟩ := List.mem_map.mp h
  obtain ⟨rfl, rfl⟩ := Prod.mk.inj heq
  exact ⟨rank, List.mem_zipIdx_iff_getElem?.mp hmem, rfl⟩

theorem slotsFrom_mem {rank : Nat} {ids : List NodeId} (h : ids[rank]? = some id) :
    (id, .stack (top - (rank : Int))) ∈ slotsFrom top 0 ids :=
  List.mem_map.mpr ⟨(id, rank), List.mem_zipIdx_iff_getElem?.mpr h, rfl⟩

theorem map_fst_slotsFrom (top : Int) (rank : Nat) (ids : List NodeId) :
    (slotsFrom top rank ids).map Prod.fst = ids := by
  rw [slotsFrom, List.map_map]
  exact List.zipIdx_map_fst rank ids

theorem slotsFrom_concat (top : Int) (front : List NodeId) (last : NodeId) :
    slotsFrom top 0 (front ++ [last])
      = slotsFrom top 0 front ++ [(last, .stack (top - (front.length : Int)))] := by
  rw [slotsFrom, List.zipIdx_append, List.map_append, List.zipIdx_singleton, Nat.zero_add]
  rfl

/-- A function tells the slots of its declarations. -/
theorem functionParameters_eq (tree : SyntaxTree) (node : Node) (top : Int) :
    Workbench.functionParameters tree node top
      = (tree.declarations node).map fun ids => Locations.ofEntries (slotsFrom top 0 ids) := by
  -- the paths are resolved one after the other, and each rank goes with its declaration
  have hpaths : ∀ (paths : List Path) (rank : Nat),
      ((paths.zipIdx rank).mapM fun entry => do
          return ((← tree.resolve entry.1).id, Location.stack (top - (entry.2 : Int))))
        = (paths.mapM fun path => (tree.resolve path).map (·.id)).map (slotsFrom top rank) := by
    intro paths
    induction paths with
    | nil => exact fun rank => rfl
    | cons path paths ih =>
      intro rank
      rw [List.zipIdx_cons, List.mapM_cons, List.mapM_cons, ih]
      dsimp only
      cases tree.resolve path with
      | error fault => rfl
      | ok found => cases paths.mapM fun path => (tree.resolve path).map (·.id) <;> rfl
  rw [Workbench.functionParameters, declarations]
  cases node.parameterPaths "returnParameters" with
  | error fault => rfl
  | ok results =>
    cases node.parameterPaths "parameters" with
    | error fault => rfl
    | ok parameters =>
      show (do
          let entries ← (results ++ parameters).zipIdx.mapM fun entry => do
            return ((← tree.resolve entry.1).id, Location.stack (top - (entry.2 : Int)))
          return Locations.ofEntries entries)
        = ((results ++ parameters).mapM fun path => (tree.resolve path).map (·.id)).map _
      rw [hpaths]
      cases (results ++ parameters).mapM fun path => (tree.resolve path).map (·.id) <;> rfl

/-! ### The locations of a node -/

/-- The state variables in the scope of a contract. -/
def membersOf (tree : SyntaxTree) (contract : NodeId) : Except Fault (List ScopeVariable) :=
  tree.scopes.map fun scopes => ((valueOf? contract scopes).map (·.members)).getD []

/-- The locations that a node tells. -/
theorem locationsAt_cases (h : tree.locationsAt node top = .ok (some locations)) :
    (node.kind = .variableDeclaration ∧ locations = [(node.id, .stack top)]) ∨
    (node.kind = .function ∧ ∃ ids, tree.declarations node = .ok ids ∧
      locations = Locations.ofEntries (slotsFrom top 0 ids)) ∨
    (node.kind = .contract ∧ ∃ members allocation, tree.membersOf node.id = .ok members ∧
      Storage.allocate tree.definitions (members.map ScopeVariable.toJson) = .ok allocation ∧
      locations = allocation.places.map fun (id, place) => (id, .storage place)) := by
  rw [locationsAt] at h
  -- by the kind of the node; nodes of other kinds tell nothing
  cases hkind : node.kind with
  | variableDeclaration =>
    rw [hkind] at h
    exact .inl ⟨rfl, (Option.some.inj (Except.ok.inj h)).symm⟩
  | function =>
    rw [hkind, functionParameters_eq] at h
    obtain ⟨found, hfound, heq⟩ := exists_of_map_eq_ok h
    obtain rfl := Option.some.inj heq
    obtain ⟨ids, hids, rfl⟩ := exists_of_map_eq_ok hfound
    exact .inr (.inl ⟨rfl, ids, hids, rfl⟩)
  | contract =>
    rw [hkind] at h
    obtain ⟨scopes, hscopes, h⟩ := exists_of_bind_eq_ok h
    obtain ⟨allocation, hallocation, h⟩ := exists_of_bind_eq_ok h
    refine .inr (.inr ⟨rfl, _, allocation, ?_, hallocation,
      (Option.some.inj (Except.ok.inj h)).symm⟩)
    rw [membersOf, hscopes]
    rfl
  | other =>
    rw [hkind] at h
    cases Except.ok.inj h

/-- Every node of a kind that declares variables tells locations. -/
theorem exists_locations {read : Option Locations} (h : tree.locationsAt node top = .ok read)
    (hkind : node.kind ≠ .other) : ∃ locations, read = some locations := by
  rw [locationsAt] at h
  cases hk : node.kind with
  | variableDeclaration =>
    rw [hk] at h
    exact ⟨_, (Except.ok.inj h).symm⟩
  | function =>
    rw [hk] at h
    obtain ⟨locations, -, heq⟩ := exists_of_map_eq_ok h
    exact ⟨locations, heq.symm⟩
  | contract =>
    rw [hk] at h
    obtain ⟨scopes, -, h⟩ := exists_of_bind_eq_ok h
    obtain ⟨allocation, -, h⟩ := exists_of_bind_eq_ok h
    exact ⟨_, (Except.ok.inj h).symm⟩
  | other => exact absurd hk hkind

/-- A node declares a variable on the stack. -/
def Declares (tree : SyntaxTree) (node : Node) (id : NodeId) : Prop :=
  node.kind = .variableDeclaration ∧ node.id = id ∨
    node.kind = .function ∧ ∃ ids, tree.declarations node = .ok ids ∧ id ∈ ids

/-- A node is a contract that has a variable among the state variables of its scope. -/
def Holds (tree : SyntaxTree) (node : Node) (id : NodeId) : Prop :=
  node.kind = .contract ∧ ∃ members, tree.membersOf node.id = .ok members ∧
    ∃ v ∈ members, NodeId.ofJson v.id = .ok id

theorem Declares.kind_ne (h : tree.Declares node id) : node.kind ≠ .other := by
  intro hkind
  obtain ⟨hkind', -⟩ | ⟨hkind', -⟩ := h <;> cases hkind.symm.trans hkind'

theorem Holds.kind_ne (h : tree.Holds node id) : node.kind ≠ .other := by
  intro hkind
  cases hkind.symm.trans h.1

/-- A variable that is told a location is declared on the stack there, or among the state
variables. -/
theorem declares_or_holds (h : tree.locationsAt node top = .ok (some locations))
    {location : Location} (hmem : (id, location) ∈ locations) :
    (∃ index, location = .stack index) ∧ tree.Declares node id ∨
      (∃ place, location = .storage place) ∧ tree.Holds node id := by
  obtain ⟨hkind, rfl⟩ | ⟨hkind, ids, hids, rfl⟩ |
    ⟨hkind, members, allocation, hmembers, hallocation, rfl⟩ := locationsAt_cases h
  · obtain ⟨rfl, rfl⟩ := Prod.mk.inj (List.mem_singleton.mp hmem)
    exact .inl ⟨⟨top, rfl⟩, .inl ⟨hkind, rfl⟩⟩
  · obtain ⟨rank, hrank, rfl⟩ := mem_slotsFrom (Locations.mem_of_mem_ofEntries hmem)
    exact .inl ⟨⟨_, rfl⟩, .inr ⟨hkind, ids, hids, List.mem_of_getElem? hrank⟩⟩
  · obtain ⟨⟨id, place⟩, hplace, heq⟩ := List.mem_map.mp hmem
    obtain ⟨rfl, rfl⟩ := Prod.mk.inj heq
    -- a layout has places for what it was asked for, and for nothing else
    obtain ⟨declared, hdeclared, hid⟩ :=
      (Storage.allocate_valueOf?_iff hallocation).mp (exists_valueOf?_of_mem hplace)
    obtain ⟨v, hv, rfl⟩ := List.mem_map.mp hdeclared
    exact .inr ⟨⟨place, rfl⟩, hkind, members, hmembers, v, hv, hid⟩

/-- A declared variable is told a location. -/
theorem exists_mem_of_declares (h : tree.locationsAt node top = .ok (some locations))
    (hd : tree.Declares node id) : ∃ location, (id, location) ∈ locations := by
  obtain ⟨hkind, rfl⟩ | ⟨hkind, ids, hids, rfl⟩ | ⟨hkind, -⟩ := locationsAt_cases h
  · obtain ⟨-, rfl⟩ | ⟨hkind', -⟩ := hd
    · exact ⟨_, List.mem_singleton.mpr rfl⟩
    · cases hkind.symm.trans hkind'
  · obtain ⟨hkind', -⟩ | ⟨-, ids', hids', hmem⟩ := hd
    · cases hkind.symm.trans hkind'
    · obtain rfl := Except.ok.inj (hids.symm.trans hids')
      obtain ⟨rank, hrank⟩ := List.getElem?_of_mem hmem
      obtain ⟨found, hfound⟩ := Locations.exists_valueOf?_ofEntries (slotsFrom_mem hrank)
      exact ⟨found, mem_of_valueOf? hfound⟩
  · obtain ⟨hkind', -⟩ | ⟨hkind', -⟩ := hd <;> cases hkind.symm.trans hkind'

/-- So is a variable in the scope of a contract. -/
theorem exists_mem_of_holds (h : tree.locationsAt node top = .ok (some locations))
    (hd : tree.Holds node id) : ∃ location, (id, location) ∈ locations := by
  obtain ⟨hkind, members, hmembers, v, hv, hid⟩ := hd
  obtain ⟨hkind', -⟩ | ⟨hkind', -⟩ | ⟨-, members', allocation, hmembers', hallocation, rfl⟩ :=
    locationsAt_cases h
  · cases hkind.symm.trans hkind'
  · cases hkind.symm.trans hkind'
  · obtain rfl := Except.ok.inj (hmembers.symm.trans hmembers')
    obtain ⟨place, hplace⟩ := (Storage.allocate_valueOf?_iff hallocation).mpr
      ⟨v.toJson, List.mem_map.mpr ⟨v, hv, rfl⟩, hid⟩
    exact ⟨.storage place, List.mem_map.mpr ⟨(id, place), mem_of_valueOf? hplace, rfl⟩⟩

/-- What is declared on the stack of a node is not among state variables there. -/
theorem Declares.not_holds (h : tree.Declares node id) : ¬ tree.Holds node id := by
  rintro ⟨hkind, -⟩
  obtain ⟨hkind', -⟩ | ⟨hkind', -⟩ := h <;> cases hkind.symm.trans hkind'

/-- A node tells a variable a slot of the stack exactly if it declares it there. -/
theorem stack_iff_of_locationsAt (h : tree.locationsAt node top = .ok (some locations)) :
    (∃ index, valueOf? id (Locations.ofEntries locations) = some (.stack index)) ↔
      tree.Declares node id := by
  constructor
  · rintro ⟨index, hindex⟩
    obtain ⟨-, hd⟩ | ⟨⟨place, hplace⟩, -⟩ :=
      declares_or_holds h (Locations.mem_of_mem_ofEntries (mem_of_valueOf? hindex))
    · exact hd
    · cases hplace
  · intro hd
    obtain ⟨location, hmem⟩ := exists_mem_of_declares h hd
    obtain ⟨found, hfound⟩ := Locations.exists_valueOf?_ofEntries hmem
    obtain ⟨⟨index, rfl⟩, -⟩ | ⟨-, hholds⟩ :=
      declares_or_holds h (Locations.mem_of_mem_ofEntries (mem_of_valueOf? hfound))
    · exact ⟨index, hfound⟩
    · -- a node does not declare on the stack what it holds in storage
      exact absurd hholds hd.not_holds

/-- A node tells a variable storage exactly if it is a contract with that state variable. -/
theorem storage_iff_of_locationsAt (h : tree.locationsAt node top = .ok (some locations)) :
    (∃ place, valueOf? id (Locations.ofEntries locations) = some (.storage place)) ↔
      tree.Holds node id := by
  constructor
  · rintro ⟨place, hplace⟩
    obtain ⟨⟨index, hindex⟩, -⟩ | ⟨-, hd⟩ :=
      declares_or_holds h (Locations.mem_of_mem_ofEntries (mem_of_valueOf? hplace))
    · cases hindex
    · exact hd
  · intro hd
    obtain ⟨location, hmem⟩ := exists_mem_of_holds h hd
    obtain ⟨found, hfound⟩ := Locations.exists_valueOf?_ofEntries hmem
    obtain ⟨-, hdeclares⟩ | ⟨⟨place, rfl⟩, -⟩ :=
      declares_or_holds h (Locations.mem_of_mem_ofEntries (mem_of_valueOf? hfound))
    · exact absurd hd hdeclares.not_holds
    · exact ⟨place, hfound⟩

end SyntaxTree

/-! ### The node of a step -/

namespace Step

variable {step : Step} {program : Option Program} {words words' : List String}
  {tree tree' : SyntaxTree} {node node' : Node}

/-- A step that is read in a program has a stack, and stands at a node of a tree. -/
def StandsIn (step : Step) (program : Option Program) (words : List String) (tree : SyntaxTree)
    (node : Node) : Prop :=
  step.stack = some words ∧ ∃ range, step.rangeIn program = .ok range ∧
    step.treeIn program = .ok (some tree) ∧ SyntaxTree.nodeAt range (some tree) = some node

/-- There is one node at which a step stands. -/
theorem StandsIn.unique (h : step.StandsIn program words tree node)
    (h' : step.StandsIn program words' tree' node') :
    words' = words ∧ tree' = tree ∧ node' = node := by
  obtain ⟨hwords, range, hrange, htree, hnode⟩ := h
  obtain ⟨hwords', range', hrange', htree', hnode'⟩ := h'
  obtain rfl := Except.ok.inj (hrange'.symm.trans hrange)
  obtain rfl := Option.some.inj (Except.ok.inj (htree'.symm.trans htree))
  exact ⟨Option.some.inj (hwords'.symm.trans hwords), rfl,
    Option.some.inj (hnode'.symm.trans hnode)⟩

/-- What is published of a step is what the node tells at which it stands. -/
theorem StandsIn.assignmentIn_eq (h : step.StandsIn program words tree node) :
    step.assignmentIn program = tree.assignmentAt node ((words.length : Int) - 1) := by
  obtain ⟨hwords, range, hrange, htree, hnode⟩ := h
  rw [assignmentIn, hwords, hrange, htree]
  dsimp only [bind, Except.bind]
  rw [hnode]

/-- Nothing is published of a step that stands at no node. -/
theorem assignmentIn_eq_nil {bound : List Event} (h : step.assignmentIn program = .ok bound)
    (hnot : ∀ words tree node, ¬ step.StandsIn program words tree node) : bound = [] := by
  rw [assignmentIn] at h
  -- the stack, the tree and the node are read in this order, and each may be missing
  cases hwords : step.stack with
  | none =>
    rw [hwords] at h
    exact (Except.ok.inj h).symm
  | some words =>
    rw [hwords] at h
    obtain ⟨range, hrange, h⟩ := exists_of_bind_eq_ok h
    obtain ⟨read, htree, h⟩ := exists_of_bind_eq_ok h
    cases read with
    | none => exact (Except.ok.inj h).symm
    | some tree =>
      cases hnode : SyntaxTree.nodeAt range (some tree) with
      | none =>
        rw [hnode] at h
        exact (Except.ok.inj h).symm
      | some node => exact absurd ⟨hwords, range, hrange, htree, hnode⟩ (hnot words tree node)

/-- A step that publishes locations stands at the node that tells them. -/
theorem exists_standsIn_of_mem {bound : List Event} (h : step.assignmentIn program = .ok bound)
    {treeId : TreeId} {locations : Locations} (hmem : Event.assign treeId locations ∈ bound) :
    ∃ words tree node, step.StandsIn program words tree node ∧ treeId = some tree.index ∧
      tree.locationsAt node ((words.length : Int) - 1) = .ok (some locations) := by
  by_cases hstands : ∃ words tree node, step.StandsIn program words tree node
  · obtain ⟨words, tree, node, hs⟩ := hstands
    rw [hs.assignmentIn_eq] at h
    obtain ⟨told, htold, rfl⟩ := exists_of_map_eq_ok h
    cases told with
    | none => cases hmem
    | some found =>
      cases List.mem_singleton.mp hmem
      exact ⟨words, tree, node, hs, rfl, htold⟩
  · rw [assignmentIn_eq_nil h fun words tree node hs => hstands ⟨words, tree, node, hs⟩] at hmem
    cases hmem

/-- A step that stands at a node which declares variables publishes their locations. -/
theorem StandsIn.exists_locationsAt (h : step.StandsIn program words tree node)
    {bound : List Event} (hb : step.assignmentIn program = .ok bound) (hkind : node.kind ≠ .other) :
    ∃ locations, tree.locationsAt node ((words.length : Int) - 1) = .ok (some locations) := by
  rw [h.assignmentIn_eq] at hb
  obtain ⟨told, htold, -⟩ := exists_of_map_eq_ok hb
  obtain ⟨locations, rfl⟩ := SyntaxTree.exists_locations htold hkind
  exact ⟨locations, htold⟩

end Step

end TraceDebugger
