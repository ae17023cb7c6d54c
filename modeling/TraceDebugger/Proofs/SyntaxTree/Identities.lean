/-
Identities of objects and of the variables that contracts declare.

Every object of a tree has its place, so where identities are pairwise distinct no variable is
declared twice: not by one contract and not by two of them.

* `Json.ids`, `Json.DistinctIds` — the identities of all objects in a value;
* `childIds_walk` — what the nodes of a value have as children are objects below the value, each the
  child of one node;
* `ids_ownVariables` — the variables that a contract declares are among its children;
* `disjoint_own` — two contracts declare no common variable.
-/
import TraceDebugger.Proofs.SyntaxTree.Tables
import Mathlib.Data.List.Nodup
import Mathlib.Data.List.Pairwise
import Mathlib.Data.List.Perm.Subperm

namespace TraceDebugger

namespace Json

/-- The identity of an object. -/
def ownId : Json → List Json
  | .obj members => (member? "id" members).toList
  | _ => []

mutual

/-- The identities of the objects in a value, that of an object before those inside. -/
def ids : Json → List Json
  | .obj members => (member? "id" members).toList ++ idsOfMembers members
  | .arr items => idsOfItems items
  | _ => []

/-- The identities of the objects in the members of an object. -/
def idsOfMembers : List (String × Json) → List Json
  | [] => []
  | (_, value) :: rest => ids value ++ idsOfMembers rest

/-- The identities of the objects in the items of a list. -/
def idsOfItems : List Json → List Json
  | [] => []
  | value :: rest => ids value ++ idsOfItems rest

end

/-- The identities of the objects inside a value, its own left out. -/
def innerIds : Json → List Json
  | .obj members => idsOfMembers members
  | .arr items => idsOfItems items
  | _ => []

/-- The identities of the items of a list. -/
def itemIds : Json → List Json
  | .arr items => items.flatMap ownId
  | _ => []

/-- All objects with an identity have pairwise distinct integers for it. -/
def DistinctIds (root : Json) : Prop :=
  ∃ numbers : List Int, root.ids = numbers.map .int ∧ numbers.Nodup

theorem ids_eq (value : Json) : value.ids = value.ownId ++ value.innerIds := by
  cases value <;> simp [ids, ownId, innerIds]

theorem idsOfItems_eq (items : List Json) :
    idsOfItems items = items.flatMap fun item => item.ownId ++ item.innerIds := by
  induction items with
  | nil => rw [idsOfItems, List.flatMap_nil]
  | cons item items ih => rw [idsOfItems, List.flatMap_cons, ih, ids_eq]

/-- The identities in a list are those of its items and those inside of them. -/
theorem perm_idsOfItems (items : List Json) :
    (items.flatMap ownId ++ items.flatMap innerIds).Perm (idsOfItems items) := by
  rw [idsOfItems_eq]
  exact List.flatMap_append_perm items ownId innerIds

theorem DistinctIds.nodup {root : Json} (h : root.DistinctIds) : root.ids.Nodup := by
  obtain ⟨numbers, hids, hnodup⟩ := h
  rw [hids]
  exact hnodup.map fun _ _ => Json.int.inj

theorem DistinctIds.exists_int {root id : Json} (h : root.DistinctIds) (hid : id ∈ root.ids) :
    ∃ n : Int, id = .int n := by
  obtain ⟨numbers, hids, -⟩ := h
  rw [hids] at hid
  obtain ⟨n, -, rfl⟩ := List.mem_map.mp hid
  exact ⟨n, rfl⟩

end Json

namespace SyntaxTree

open Json (ids idsOfMembers idsOfItems innerIds itemIds ownId)

/-! ### Children of nodes -/

/-- The identities of the items of a member of that name among some members. -/
def childIdsOf (members : List (String × Json)) : List Json :=
  ((Json.member? "nodes" members).map itemIds).getD []

/-- The identities of the children of a node. -/
def childIds (node : Node) : List Json := childIdsOf node.members

theorem members_nodeAt? {path : Path} {members : List (String × Json)} {here : Option Node}
    (h : nodeAt? path members = .ok here) : ∀ node ∈ here, node.members = members := by
  rw [nodeAt?] at h
  split at h
  · dsimp only at h
    split at h
    · obtain ⟨span, -, h⟩ := exists_of_bind_eq_ok h
      obtain ⟨id, -, h⟩ := exists_of_bind_eq_ok h
      obtain rfl := Except.ok.inj h
      rintro node ⟨⟩
      rfl
    · cases h
  · obtain rfl := Except.ok.inj h
    rintro node ⟨⟩

/-- **The nodes of a value share no children**: their children, counted for each node, are objects
inside the value, each counted once; and the items of a list are none of them. -/
theorem childIds_walk :
    (∀ path value, ∀ nodes, walk path value = .ok nodes →
      (itemIds value ++ nodes.flatMap childIds).Subperm value.innerIds) ∧
    (∀ path index items, ∀ nodes, walkItems path index items = .ok nodes →
      (nodes.flatMap childIds).Subperm (items.flatMap innerIds)) ∧
    ∀ path members, ∀ nodes, walkMembers path members = .ok nodes →
      (childIdsOf members ++ nodes.flatMap childIds).Subperm (idsOfMembers members) := by
  apply walk.mutual_induct
  case case1 =>
    -- an object that is a node has the children of its members
    intro path members ih nodes h
    rw [walk] at h
    obtain ⟨here, hhere, h⟩ := exists_of_bind_eq_ok h
    obtain ⟨below, hbelow, h⟩ := exists_of_bind_eq_ok h
    obtain rfl := Except.ok.inj h
    have hown : (here.toList.flatMap childIds).Sublist (childIdsOf members) := by
      cases here with
      | none => exact List.nil_sublist _
      | some node =>
        rw [Option.toList_some, List.flatMap_singleton, childIds, members_nodeAt? hhere node rfl]
    rw [List.flatMap_append]
    exact (hown.subperm.append (List.Subperm.refl _)).trans (ih below hbelow)
  case case2 =>
    intro path items ih nodes h
    rw [walk] at h
    exact ((List.Subperm.refl _).append (ih nodes h)).trans (Json.perm_idsOfItems items).subperm
  case case3 =>
    intro value path hobj harr nodes h
    cases value
    case obj members => exact (hobj members rfl).elim
    case arr items => exact (harr items rfl).elim
    all_goals
      obtain rfl := Except.ok.inj h
      exact List.nil_subperm
  case case4 =>
    intro path index nodes h
    obtain rfl := Except.ok.inj h
    exact List.nil_subperm
  case case5 =>
    intro path index value rest ihvalue ihrest nodes h
    rw [walkItems] at h
    obtain ⟨first, hfirst, h⟩ := exists_of_bind_eq_ok h
    obtain ⟨others, hothers, h⟩ := exists_of_bind_eq_ok h
    obtain rfl := Except.ok.inj h
    rw [List.flatMap_append, List.flatMap_cons]
    exact ((List.sublist_append_right _ _).subperm.trans (ihvalue first hfirst)).append
      (ihrest others hothers)
  case case6 =>
    intro path nodes h
    obtain rfl := Except.ok.inj h
    exact List.nil_subperm
  case case7 =>
    intro path name value rest ihvalue ihrest nodes h
    rw [walkMembers] at h
    obtain ⟨first, hfirst, h⟩ := exists_of_bind_eq_ok h
    obtain ⟨others, hothers, h⟩ := exists_of_bind_eq_ok h
    obtain rfl := Except.ok.inj h
    have hids : value.innerIds.Subperm value.ids := by
      rw [Json.ids_eq]
      exact (List.sublist_append_right _ _).subperm
    have hvalue := (ihvalue first hfirst).trans hids
    have hrest := ihrest others hothers
    rw [List.flatMap_append, idsOfMembers, childIdsOf, Json.member?]
    by_cases hname : name = "nodes"
    · -- the children are the items of this member
      rw [if_pos hname, Option.map_some, Option.getD_some, ← List.append_assoc]
      exact hvalue.append ((List.sublist_append_right _ _).subperm.trans hrest)
    · -- the children are in the rest
      rw [if_neg hname]
      have hperm : (childIdsOf rest ++ (first.flatMap childIds ++ others.flatMap childIds)).Perm
          (first.flatMap childIds ++ (childIdsOf rest ++ others.flatMap childIds)) := by
        rw [← List.append_assoc, ← List.append_assoc]
        exact List.perm_append_comm.append_right _
      exact hperm.subperm.trans
        (((List.sublist_append_right _ _).subperm.trans hvalue).append hrest)

/-- The children of the nodes of a tree are objects of its root. -/
theorem childIds_subperm {index : Int} {root : Json} {tree : SyntaxTree}
    (h : SyntaxTree.ofJson index root = .ok tree) :
    (tree.nodes.flatMap childIds).Subperm root.ids := by
  rw [SyntaxTree.ofJson] at h
  split at h
  · cases h
  · obtain ⟨nodes, hnodes, rfl⟩ := exists_of_map_eq_ok h
    rw [Json.ids_eq]
    exact (List.sublist_append_right _ _).subperm.trans
      ((childIds_walk.1 [] root nodes hnodes).trans (List.sublist_append_right _ _).subperm)

/-- The nodes of a tree share no children. -/
theorem nodup_childIds {index : Int} {root : Json} {tree : SyntaxTree}
    (h : SyntaxTree.ofJson index root = .ok tree) (hids : root.DistinctIds) :
    (tree.nodes.flatMap childIds).Nodup := by
  obtain ⟨children, hperm, hsub⟩ := childIds_subperm h
  exact hperm.nodup_iff.mp (hids.nodup.sublist hsub)

/-! ### Variables of contracts -/

theorem isObject_of_declaresState {child : Json} {declares : Bool}
    (h : declaresState child = .ok declares) : ∃ members, child = .obj members := by
  rw [declaresState] at h
  obtain ⟨nodeType, h, -⟩ := exists_of_bind_eq_ok h
  cases child with
  | obj members => exact ⟨members, rfl⟩
  | _ => cases h

/-- The variables among some declarations are some of the declarations. -/
theorem ids_stateVariables {children : List Json} {own : List ScopeVariable}
    (h : stateVariables children = .ok own) :
    (own.map ScopeVariable.id).Sublist (children.flatMap ownId) := by
  -- on the declarations; those that declare no state are left out
  induction children generalizing own with
  | nil =>
    obtain rfl := Except.ok.inj h
    exact List.nil_sublist _
  | cons child rest ih =>
    rw [stateVariables] at h
    obtain ⟨declares, hdeclares, h⟩ := exists_of_bind_eq_ok h
    obtain ⟨members, rfl⟩ := isObject_of_declaresState hdeclares
    rw [List.flatMap_cons]
    cases declares with
    | false => exact (ih h).trans (List.sublist_append_right _ _)
    | true =>
      obtain ⟨id, hid, h⟩ := exists_of_bind_eq_ok h
      obtain ⟨others, hothers, h⟩ := exists_of_bind_eq_ok h
      obtain rfl := Except.ok.inj h
      have hown : ownId (.obj members) = [id] := by
        rw [Json.require] at hid
        rw [ownId]
        cases hmember : Json.member? "id" members with
        | none => rw [hmember] at hid; cases hid
        | some value =>
          rw [hmember] at hid
          obtain rfl := Except.ok.inj hid
          rfl
      rw [hown]
      exact (ih hothers).cons_cons id

/-- What a value yields one by one has the identities of its items: the names of members and the
characters of a text have none. -/
theorem flatMap_ownId_items {value : Json} {children : List Json}
    (h : value.items = .ok children) : children.flatMap ownId = itemIds value := by
  cases value with
  | arr items =>
    obtain rfl := Except.ok.inj h
    rfl
  | str text =>
    obtain rfl := Except.ok.inj h
    rw [List.flatMap_map]
    exact List.flatMap_eq_nil_iff.mpr fun _ _ => rfl
  | obj members =>
    obtain rfl := Except.ok.inj h
    rw [List.flatMap_map]
    exact List.flatMap_eq_nil_iff.mpr fun _ _ => rfl
  | _ => cases h

/-- The variables that a contract declares are children of it. -/
theorem ids_ownVariables {contract : Node} {own : List ScopeVariable}
    (h : ownVariables contract = .ok own) :
    (own.map ScopeVariable.id).Sublist (childIds contract) := by
  rw [ownVariables] at h
  dsimp only at h
  rw [childIds, childIdsOf]
  cases hnodes : Json.member? "nodes" contract.members with
  | none =>
    rw [hnodes] at h
    exact ids_stateVariables h
  | some nodes =>
    rw [hnodes] at h
    obtain ⟨children, hchildren, h⟩ := exists_of_bind_eq_ok h
    rw [Option.map_some, Option.getD_some, ← flatMap_ownId_items hchildren]
    exact ids_stateVariables h

section Distinct

variable {index : Int} {root : Json} {tree : SyntaxTree}

/-- The variables that a contract of a tree declares are objects of the tree. -/
theorem mem_ids_of_own (htree : SyntaxTree.ofJson index root = .ok tree) {contract : Node}
    (hcontract : contract ∈ tree.nodes) {own : List ScopeVariable}
    (hown : ownVariables contract = .ok own) {v : ScopeVariable} (hv : v ∈ own) :
    v.id ∈ root.ids := by
  have hchild : v.id ∈ childIds contract :=
    (ids_ownVariables hown).subset (List.mem_map_of_mem hv)
  exact (childIds_subperm htree).subset (List.mem_flatMap.mpr ⟨contract, hcontract, hchild⟩)

/-- A contract declares no variable twice. -/
theorem nodup_own (htree : SyntaxTree.ofJson index root = .ok tree) (hids : root.DistinctIds)
    {contract : Node} (hcontract : contract ∈ tree.nodes) {own : List ScopeVariable}
    (hown : ownVariables contract = .ok own) : (own.map ScopeVariable.id).Nodup :=
  ((List.nodup_flatMap.mp (nodup_childIds htree hids)).1 contract hcontract).sublist
    (ids_ownVariables hown)

/-- Two contracts declare no common variable. -/
theorem disjoint_own (htree : SyntaxTree.ofJson index root = .ok tree) (hids : root.DistinctIds)
    {first second : Node} (hfirst : first ∈ tree.nodes) (hsecond : second ∈ tree.nodes)
    (hne : first ≠ second) {own own' : List ScopeVariable} (hown : ownVariables first = .ok own)
    (hown' : ownVariables second = .ok own') :
    (own.map ScopeVariable.id).Disjoint (own'.map ScopeVariable.id) := by
  have : Std.Symm (Function.onFun List.Disjoint childIds) :=
    ⟨fun _ _ h _ hfirst hsecond => h hsecond hfirst⟩
  have hdisjoint : List.Disjoint (childIds first) (childIds second) :=
    (List.nodup_flatMap.mp (nodup_childIds htree hids)).2.forall hfirst hsecond hne
  intro id hid hid'
  exact hdisjoint ((ids_ownVariables hown).subset hid) ((ids_ownVariables hown').subset hid')

end Distinct

end SyntaxTree

end TraceDebugger
