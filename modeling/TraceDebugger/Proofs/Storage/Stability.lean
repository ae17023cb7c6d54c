/-
Storage layouts are stable under inheritance.

Declarations are laid out one after the other, so what comes later moves nothing that was laid out
before; and the variables that a contract inherits come first.

* `allocate_append` — a layout is kept when declarations of other identities follow;
* `exists_declared` — a contract whose linearization ends in that of another one sees the variables
  of the other one first;
* `layouts_stable` — the layout of the other one is kept.
-/
import TraceDebugger.Proofs.Storage.Packing
import TraceDebugger.Proofs.SyntaxTree.Identities

namespace TraceDebugger

open SyntaxTree (valueOf? setEntry)

namespace Storage

variable {definitions : Definitions}

/-! ### Places -/

/-- Two layouts have a variable at the same place: slot, offset and size. -/
def Allocation.Agree (first second : Allocation) (id : NodeId) : Prop :=
  ∃ place, valueOf? id first.places = some place ∧ valueOf? id second.places = some place

/-- A declaration that is laid out gets a place under its identity. -/
theorem exists_placeDeclaration {extent : Json → Except Fault Extent} {cursor next : Cursor}
    {declared : Json} (h : placeDeclaration definitions extent cursor declared = .ok next) :
    ∃ id place, declaredId declared = .ok id ∧
      next.places = setEntry id place cursor.places := by
  obtain ⟨⟨id, room⟩, ⟨hid, -⟩, rfl⟩ := placeDeclaration_eq_ok_iff.mp h
  exact ⟨id, cursor.placeFor room, hid, cursor.places_place id room⟩

section Fold

variable {extent : Json → Except Fault Extent} {declarations : List Json} {ids : List NodeId}
  {cursor last : Cursor}

/-- Laying out declarations keeps the places of all other variables. -/
theorem valueOf?_of_not_mem (hids : declarations.mapM declaredId = .ok ids)
    (h : declarations.foldlM (placeDeclaration definitions extent) cursor = .ok last) {id : NodeId}
    (hid : id ∉ ids) : valueOf? id last.places = valueOf? id cursor.places := by
  have hall := mapM_eq_ok_iff.mp hids
  clear hids
  induction hall generalizing cursor with
  | nil =>
    obtain rfl := Except.ok.inj h
    rfl
  | @cons declared own rest owns hown _ ih =>
    rw [List.foldlM_cons] at h
    obtain ⟨next, hnext, h⟩ := exists_of_bind_eq_ok h
    obtain ⟨own', place, hown', hplaces⟩ := exists_placeDeclaration hnext
    obtain rfl : own = own' := Except.ok.inj (hown.symm.trans hown')
    obtain ⟨hne, hrest⟩ := List.ne_and_not_mem_of_not_mem_cons hid
    rw [ih h hrest, hplaces, SyntaxTree.valueOf?_setEntry_of_ne hne]

/-- Every declaration that is laid out has a place. -/
theorem exists_valueOf?_of_mem (hids : declarations.mapM declaredId = .ok ids)
    (h : declarations.foldlM (placeDeclaration definitions extent) cursor = .ok last) {id : NodeId}
    (hid : id ∈ ids) : ∃ place, valueOf? id last.places = some place := by
  have hall := mapM_eq_ok_iff.mp hids
  clear hids
  induction hall generalizing cursor with
  | nil => cases hid
  | @cons declared own rest owns hown hrest ih =>
    rw [List.foldlM_cons] at h
    obtain ⟨next, hnext, h⟩ := exists_of_bind_eq_ok h
    -- the last declaration of an identity is the one that places it
    by_cases hmem : id ∈ owns
    · exact ih h hmem
    · obtain rfl : id = own := (List.mem_cons.mp hid).resolve_right hmem
      obtain ⟨own', place, hown', hplaces⟩ := exists_placeDeclaration hnext
      obtain rfl : id = own' := Except.ok.inj (hown.symm.trans hown')
      refine ⟨place, ?_⟩
      rw [valueOf?_of_not_mem (mapM_eq_ok_iff.mpr hrest) h hmem, hplaces,
        SyntaxTree.valueOf?_setEntry_self]

/-- Declarations that are laid out have identities. -/
theorem exists_ids_of_foldlM
    (h : declarations.foldlM (placeDeclaration definitions extent) cursor = .ok last) :
    ∃ ids, declarations.mapM declaredId = .ok ids := by
  induction declarations generalizing cursor with
  | nil => exact ⟨[], rfl⟩
  | cons declared rest ih =>
    rw [List.foldlM_cons] at h
    obtain ⟨next, hnext, h⟩ := exists_of_bind_eq_ok h
    obtain ⟨own, -, hown, -⟩ := exists_placeDeclaration hnext
    obtain ⟨ids, hids⟩ := ih h
    exact ⟨own :: ids, mapM_eq_ok_iff.mpr (.cons hown (mapM_eq_ok_iff.mp hids))⟩

end Fold

/-- A layout has places for the declarations that it is made of, and for no others. -/
theorem allocate_valueOf?_iff {declarations : List Json} {allocation : Allocation} {id : NodeId}
    (h : allocate definitions declarations = .ok allocation) :
    (∃ place, valueOf? id allocation.places = some place) ↔
      ∃ declared ∈ declarations, declaredId declared = .ok id := by
  obtain ⟨last, hlast, rfl⟩ := exists_of_map_eq_ok h
  obtain ⟨ids, hids⟩ := exists_ids_of_foldlM hlast
  constructor
  · rintro ⟨place, hplace⟩
    have hmem : id ∈ ids := by
      by_contra hnot
      have hnone := valueOf?_of_not_mem hids hlast hnot
      cases hnone.symm.trans hplace
    exact exists_source hids hmem
  · rintro ⟨declared, hdeclared, hid⟩
    obtain ⟨own, hmem, hown⟩ := exists_target hids hdeclared
    obtain rfl := Except.ok.inj (hown.symm.trans hid)
    exact exists_valueOf?_of_mem hids hlast hmem

/-- It has one place for each of them. -/
theorem nodup_places_allocate {declarations : List Json} {allocation : Allocation}
    (h : allocate definitions declarations = .ok allocation) :
    (allocation.places.map Prod.fst).Nodup := by
  have hplaces : ∀ (entries : List (NodeId × Extent)) (cursor : Cursor),
      (cursor.places.map Prod.fst).Nodup →
        ((cursor.placeAll entries).places.map Prod.fst).Nodup := by
    intro entries
    induction entries with
    | nil => exact fun cursor h => h
    | cons entry entries ih =>
      intro cursor h
      refine ih _ ?_
      rw [Cursor.places_place]
      exact SyntaxTree.nodup_setEntry h _ _
  obtain ⟨entries, -, rfl⟩ := layOut_eq_ok_iff.mp h
  exact hplaces entries {} List.nodup_nil

/-- A longer list allows for deeper types. -/
theorem depthLimit_le_append (definitions : Definitions) (xs ys : List Json) :
    depthLimit definitions xs ≤ depthLimit definitions (xs ++ ys) := by
  simp only [depthLimit, valuesOfItems_append, List.length_append]
  omega

/-- **A layout is kept when declarations of other identities follow**: every variable has the slot,
the offset and the size that it had. -/
theorem allocate_append {xs ys : List Json} {ids others : List NodeId}
    {alone together : Allocation} (hids : xs.mapM declaredId = .ok ids)
    (hothers : ys.mapM declaredId = .ok others) (hdistinct : ids.Disjoint others)
    (halone : allocate definitions xs = .ok alone)
    (htogether : allocate definitions (xs ++ ys) = .ok together) :
    ∀ id ∈ ids, alone.Agree together id := by
  intro id hid
  obtain ⟨last, hlast, rfl⟩ := exists_of_map_eq_ok halone
  obtain ⟨last', hlast', rfl⟩ := exists_of_map_eq_ok htogether
  rw [List.foldlM_append] at hlast'
  obtain ⟨middle, hmiddle, hlast'⟩ := exists_of_bind_eq_ok hlast'
  -- the longer list finds the same extents for the shorter one
  obtain ⟨entries, hentries, rfl⟩ := foldlM_placeDeclaration_eq_ok_iff.mp hlast
  have hfinds := EntersAs.mono hentries fun _ _ typeName _ _ =>
    extentWithin_mono (depthLimit_le_append definitions xs ys) typeName
  obtain rfl : middle = Cursor.placeAll {} entries :=
    Except.ok.inj (hmiddle.symm.trans
      (foldlM_placeDeclaration_eq_ok_iff.mpr ⟨entries, hfinds, rfl⟩))
  obtain ⟨place, hplace⟩ := exists_valueOf?_of_mem hids hlast hid
  exact ⟨place, hplace,
    (valueOf?_of_not_mem hothers hlast' fun h => hdistinct hid h).trans hplace⟩

end Storage

/-! ### Inheritance -/

namespace SyntaxTree

/-- The contracts that a contract lists as its linearization, itself first and the most basic one
last; a contract that lists none is alone. -/
def listedBases (id : NodeId) (contract : Node) : Except Fault (List NodeId) :=
  match Json.member? "linearizedBaseContracts" contract.members with
  | some bases => if bases.truthy then do (← bases.items).mapM NodeId.ofJson else .ok [id]
  | none => .ok [id]

theorem itemsReversed_of_items {value : Json} {items : List Json} (h : value.items = .ok items) :
    value.itemsReversed = .ok items.reverse := by
  cases value with
  | arr _ | str _ | obj _ =>
    obtain rfl := Except.ok.inj h
    simp [Json.itemsReversed]
  | _ => cases h

/-- The linearization is what the contract lists, from its end. -/
theorem linearization_of_listed {id : NodeId} {contract : Node} {listed : List NodeId}
    (h : listedBases id contract = .ok listed) :
    linearization id contract = .ok listed.reverse := by
  rw [listedBases] at h
  rw [linearization]
  cases hbases : Json.member? "linearizedBaseContracts" contract.members with
  | none =>
    rw [hbases] at h
    obtain rfl := Except.ok.inj h
    rfl
  | some bases =>
    rw [hbases] at h
    dsimp only at h ⊢
    -- no list and an empty one both count as no bases
    by_cases htruthy : bases.truthy
    · rw [if_pos htruthy] at h ⊢
      obtain ⟨items, hitems, h⟩ := exists_of_bind_eq_ok h
      rw [itemsReversed_of_items hitems]
      exact mapM_eq_ok_iff.mpr (List.rel_reverse (mapM_eq_ok_iff.mp h))
    · rw [if_neg htruthy] at h ⊢
      obtain rfl := Except.ok.inj h
      rfl

/-- The variables of some contracts, in the order of the contracts. -/
def variablesOf (own : List (NodeId × List ScopeVariable)) (bases : List NodeId) :
    List ScopeVariable :=
  bases.flatMap fun base => (valueOf? base own).getD []

/-- The table holds the variables that contracts of the tree declare. -/
def Declared (tree : SyntaxTree) (own : List (NodeId × List ScopeVariable)) : Prop :=
  ∀ id declared, valueOf? id own = some declared →
    ∃ contract, valueOf? id tree.contracts = some contract ∧ ownVariables contract = .ok declared

/-- What the table has for an identity was declared by the contract of that identity, or is
nothing. -/
theorem Declared.exists_contract {tree : SyntaxTree} {own : List (NodeId × List ScopeVariable)}
    (h : tree.Declared own) (id : NodeId) :
    (valueOf? id own).getD [] = [] ∨ ∃ contract ∈ tree.nodes, contract.id = id ∧
      ownVariables contract = .ok ((valueOf? id own).getD []) := by
  cases hid : valueOf? id own with
  | none => exact .inl rfl
  | some declared =>
    obtain ⟨contract, hcontract, hdeclared⟩ := h id declared hid
    obtain ⟨hmem, rfl⟩ := contract_mem hcontract
    exact .inr ⟨contract, hmem, rfl, hdeclared⟩

/-- A scope holds the variables of the linearization of its contract. -/
theorem exists_declared {tree : SyntaxTree} {scopes : List (NodeId × Scope)}
    (h : tree.scopes = .ok scopes) :
    ∃ own, tree.Declared own ∧ ∀ id scope, valueOf? id scopes = some scope →
      ∃ contract bases, valueOf? id tree.contracts = some contract ∧
        linearization id contract = .ok bases ∧ scope.members = variablesOf own bases := by
  -- the variables of each contract are read first, and the scopes are put together from them
  obtain ⟨own, hown, h⟩ := exists_of_bind_eq_ok h
  refine ⟨own, fun id declared hid => ?_, fun id scope hid => ?_⟩
  · obtain ⟨contract, hcontract, hread⟩ := valueOf?_mapM (fun entry read hread => by
      obtain ⟨_, -, hread⟩ := exists_of_bind_eq_ok hread
      exact congrArg Prod.fst (Except.ok.inj hread).symm) hown hid
    obtain ⟨declared', hdeclared, hread⟩ := exists_of_bind_eq_ok hread
    obtain rfl : declared' = declared := congrArg Prod.snd (Except.ok.inj hread)
    exact ⟨contract, hcontract, hdeclared⟩
  · obtain ⟨contract, hcontract, hread⟩ := valueOf?_mapM (fun entry read hread => by
      obtain ⟨_, -, hread⟩ := exists_of_bind_eq_ok hread
      exact congrArg Prod.fst (Except.ok.inj hread).symm) h hid
    obtain ⟨bases, hbases, hread⟩ := exists_of_bind_eq_ok hread
    obtain rfl := congrArg Prod.snd (Except.ok.inj hread)
    exact ⟨contract, bases, hcontract, hbases, rfl⟩

section Distinct

variable {index : Int} {root : Json} {tree : SyntaxTree}
  {own : List (NodeId × List ScopeVariable)} {bases : List NodeId}

/-- The variables of contracts are objects of the tree. -/
theorem mem_ids_of_variablesOf (htree : SyntaxTree.ofJson index root = .ok tree)
    (hown : tree.Declared own) {v : ScopeVariable} (hv : v ∈ variablesOf own bases) :
    v.id ∈ root.ids := by
  obtain ⟨base, -, hv⟩ := List.mem_flatMap.mp hv
  obtain hnone | ⟨contract, hmem, -, hdeclared⟩ := hown.exists_contract base
  · rw [hnone] at hv
    cases hv
  · exact mem_ids_of_own htree hmem hdeclared hv

/-- Different contracts declare different variables. -/
theorem nodup_variablesOf (htree : SyntaxTree.ofJson index root = .ok tree)
    (hids : root.DistinctIds) (hown : tree.Declared own) (hbases : bases.Nodup) :
    ((variablesOf own bases).map ScopeVariable.id).Nodup := by
  rw [variablesOf, List.map_flatMap, List.nodup_flatMap]
  refine ⟨fun base _ => ?_, hbases.imp fun {base other} hne => ?_⟩
  · obtain hnone | ⟨contract, hmem, -, hdeclared⟩ := hown.exists_contract base
    · rw [hnone]
      exact List.nodup_nil
    · exact nodup_own htree hids hmem hdeclared
  · -- two bases are two contracts of the tree, or one of them is none and declares nothing
    show List.Disjoint (((valueOf? base own).getD []).map ScopeVariable.id)
      (((valueOf? other own).getD []).map ScopeVariable.id)
    obtain hnone | ⟨contract, hmem, hid, hdeclared⟩ := hown.exists_contract base
    · rw [hnone]
      exact List.disjoint_nil_left _
    obtain hnone | ⟨contract', hmem', hid', hdeclared'⟩ := hown.exists_contract other
    · rw [hnone]
      exact List.disjoint_nil_right _
    refine disjoint_own htree hids hmem hmem' ?_ hdeclared hdeclared'
    rintro rfl
    exact hne (hid.symm.trans hid')

end Distinct

end SyntaxTree

namespace Storage

open SyntaxTree

/-- Variables with integers for their identities have declarations with identities. -/
theorem exists_declaredIds {members : List ScopeVariable}
    (h : ∀ v ∈ members, ∃ n : Int, v.id = .int n) :
    ∃ ids, (members.map ScopeVariable.toJson).mapM declaredId = .ok ids := by
  apply exists_mapM
  intro declared hdeclared
  obtain ⟨v, hv, rfl⟩ := List.mem_map.mp hdeclared
  obtain ⟨n, hn⟩ := h v hv
  refine ⟨.number n, ?_⟩
  rw [ScopeVariable.toJson, hn]
  rfl

/-- Variables with different integers for their identities are laid out under different ones. -/
theorem disjoint_declaredIds {first second : List ScopeVariable} {ids others : List NodeId}
    (hint : ∀ v ∈ first ++ second, ∃ n : Int, v.id = .int n)
    (hnodup : ((first ++ second).map ScopeVariable.id).Nodup)
    (hids : (first.map ScopeVariable.toJson).mapM declaredId = .ok ids)
    (hothers : (second.map ScopeVariable.toJson).mapM declaredId = .ok others) :
    ids.Disjoint others := by
  intro id hid hid'
  obtain ⟨_, hmem, hsource⟩ := exists_source hids hid
  obtain ⟨_, hmem', hsource'⟩ := exists_source hothers hid'
  obtain ⟨v, hv, rfl⟩ := List.mem_map.mp hmem
  obtain ⟨w, hw, rfl⟩ := List.mem_map.mp hmem'
  obtain ⟨n, hn⟩ := hint v (List.mem_append_left _ hv)
  obtain ⟨m, hm⟩ := hint w (List.mem_append_right _ hw)
  -- integers that are read as one identity are equal
  have hsame : NodeId.ofJson v.id = NodeId.ofJson w.id := hsource.trans hsource'.symm
  rw [hn, hm] at hsame
  obtain rfl : n = m := NodeId.number.inj (Except.ok.inj hsame)
  rw [List.map_append] at hnodup
  have hshared : v.id ∈ second.map ScopeVariable.id := by
    rw [hn, ← hm]
    exact List.mem_map_of_mem hw
  exact List.disjoint_of_nodup_append hnodup (List.mem_map_of_mem hv) hshared

/-- **Layouts are stable under inheritance.**  Where the objects of a tree have distinct identities,
the linearization of one contract is the end of that of another and both layouts can be computed,
every variable in the scope of the first has the slot, the offset and the size in the second layout
that it has in the first.  For whatever declarations follow others, if only all identities are
distinct, the layout of the others is kept. -/
theorem layouts_stable {index : Int} {root : Json} {tree : SyntaxTree}
    {scopes : List (NodeId × Scope)} {base derived : NodeId} {baseNode derivedNode : Node}
    {basics bases : List NodeId} {inherited scope : Scope} {small large : Allocation}
    (htree : SyntaxTree.ofJson index root = .ok tree) (hids : root.DistinctIds)
    (hscopes : tree.scopes = .ok scopes)
    (hbase : valueOf? base tree.contracts = some baseNode)
    (hderived : valueOf? derived tree.contracts = some derivedNode)
    (hbasics : listedBases base baseNode = .ok basics)
    (hbases : listedBases derived derivedNode = .ok bases)
    (hsuffix : basics <:+ bases) (honce : bases.Nodup)
    (hinherited : valueOf? base scopes = some inherited)
    (hscope : valueOf? derived scopes = some scope)
    (hsmall : allocateScope tree.definitions inherited = .ok small)
    (hlarge : allocateScope tree.definitions scope = .ok large) :
    (∀ v ∈ inherited.members, ∃ id, NodeId.ofJson v.id = .ok id ∧ small.Agree large id) ∧
      ∀ (definitions : Definitions) (xs ys : List Json) (ids others : List NodeId)
        (alone together : Allocation), xs.mapM declaredId = .ok ids →
        ys.mapM declaredId = .ok others → (ids ++ others).Nodup →
        allocate definitions xs = .ok alone → allocate definitions (xs ++ ys) = .ok together →
        ∀ id ∈ ids, alone.Agree together id := by
  refine ⟨?_, fun definitions xs ys ids others alone together hxs hys hnodup =>
    allocate_append hxs hys (List.disjoint_of_nodup_append hnodup)⟩
  obtain ⟨own, hown, hseen⟩ := exists_declared hscopes
  obtain ⟨node, _, hnode, hlinear, hmembers⟩ := hseen base inherited hinherited
  obtain rfl : node = baseNode := Option.some.inj (hnode.symm.trans hbase)
  obtain rfl := Except.ok.inj ((linearization_of_listed hbasics).symm.trans hlinear)
  obtain ⟨node', _, hnode', hlinear', hmembers'⟩ := hseen derived scope hscope
  obtain rfl : node' = derivedNode := Option.some.inj (hnode'.symm.trans hderived)
  obtain rfl := Except.ok.inj ((linearization_of_listed hbases).symm.trans hlinear')
  -- the scope of the second contract begins with that of the first
  obtain ⟨front, rfl⟩ := hsuffix
  have hsplit : scope.members = inherited.members ++ variablesOf own front.reverse := by
    rw [hmembers', hmembers, List.reverse_append, variablesOf, variablesOf, variablesOf,
      List.flatMap_append]
  have hdistinct : (scope.members.map ScopeVariable.id).Nodup := by
    rw [hmembers']
    exact nodup_variablesOf htree hids hown (List.nodup_reverse.mpr honce)
  have hint : ∀ v ∈ scope.members, ∃ n : Int, v.id = .int n := by
    intro v hv
    rw [hmembers'] at hv
    exact hids.exists_int (mem_ids_of_variablesOf htree hown hv)
  rw [hsplit] at hdistinct hint
  obtain ⟨ids, hread⟩ := exists_declaredIds fun v hv => hint v (List.mem_append_left _ hv)
  obtain ⟨others, hothers⟩ := exists_declaredIds fun v hv => hint v (List.mem_append_right _ hv)
  rw [allocateScope, hsplit, List.map_append] at hlarge
  intro v hv
  obtain ⟨id, hid, hown⟩ := exists_target hread (List.mem_map_of_mem hv)
  exact ⟨id, hown, allocate_append hread hothers
    (disjoint_declaredIds hint hdistinct hread hothers) hsmall hlarge id hid⟩

/-- A source of two contracts: `Vault` inherits from `Ledger`, and both declare variables that share
a slot. -/
def vaultSource : Json :=
  let variableOf (id : Int) (name type : String) : Json :=
    .obj [("nodeType", .str "VariableDeclaration"), ("id", .int id), ("src", .str "0:1:0"),
      ("name", .str name), ("stateVariable", .bool true),
      ("typeName", .obj [("nodeType", .str "ElementaryTypeName"), ("name", .str type)])]
  .obj [("nodeType", .str "SourceUnit"), ("id", .int 1), ("src", .str "0:9:0"),
    ("nodes", .arr [
      .obj [("nodeType", .str "ContractDefinition"), ("id", .int 2), ("src", .str "0:4:0"),
        ("nodes", .arr [variableOf 3 "owner" "address", variableOf 4 "total" "uint256"])],
      .obj [("nodeType", .str "ContractDefinition"), ("id", .int 5), ("src", .str "4:4:0"),
        ("linearizedBaseContracts", .arr [.int 5, .int 2]),
        ("nodes", .arr [variableOf 6 "paused" "bool", variableOf 7 "limit" "uint64"])]])]

/-- The tree of the source. -/
def vaultTree : SyntaxTree := found (SyntaxTree.ofJson 0 vaultSource)

/-- The scope of a contract of the source. -/
def vaultScope (id : Int) : Scope := (valueOf? (.number id) (found vaultTree.scopes)).getD default

/-- The layout of a contract of the source. -/
def vaultLayout (id : Int) : Allocation :=
  found (allocateScope vaultTree.definitions (vaultScope id))

/-- The variables of `Ledger` stay where they are in `Vault`. -/
theorem vault_layouts_stable :
    SyntaxTree.ofJson 0 vaultSource = .ok vaultTree ∧ (vaultScope 2).members.length = 2 ∧
      ∀ v ∈ (vaultScope 2).members, ∃ id, NodeId.ofJson v.id = .ok id ∧
        (vaultLayout 2).Agree (vaultLayout 5) id := by
  have htree : SyntaxTree.ofJson 0 vaultSource = .ok vaultTree := eq_ok_found (by decide +kernel)
  have hids : vaultSource.DistinctIds := ⟨[1, 2, 3, 4, 5, 6, 7], rfl, by decide⟩
  have hscopes : vaultTree.scopes = .ok (found vaultTree.scopes) :=
    eq_ok_found (by decide +kernel)
  refine ⟨htree, by decide +kernel, ?_⟩
  exact (@layouts_stable 0 vaultSource vaultTree (found vaultTree.scopes) (.number 2) (.number 5)
    ((valueOf? (.number 2) vaultTree.contracts).getD default)
    ((valueOf? (.number 5) vaultTree.contracts).getD default)
    [.number 2] [.number 5, .number 2] (vaultScope 2) (vaultScope 5) (vaultLayout 2) (vaultLayout 5)
    htree hids hscopes rfl rfl rfl rfl ⟨[.number 5], rfl⟩ (by decide) rfl rfl
    (eq_ok_found (by decide +kernel)) (eq_ok_found (by decide +kernel))).1

end Storage

end TraceDebugger
