/-
Where the nodes of a syntax tree stand.

The nodes of a tree are the objects in its root that have a type, an identity and a source
attribute, each with the path that leads to it; they are listed in pre-order, an object before what
is inside it and one member or item before the next.

* `Json.Precedes` — pre-order of the places in a value, which no place precedes itself in
  (`Precedes.ne`);
* `Enumerates` — some nodes are those at certain places, in pre-order; put together by
  `Enumerates.append`;
* `enumerates_walk` — the walk through a value finds all of its nodes, in pre-order;
* `valueOf?_byId` — the table of identities has the last node of each;
* `indexes_ofJson` — the main result.
-/
import TraceDebugger.Proofs.SyntaxTree.Identities
import Mathlib.Data.List.Induction

namespace TraceDebugger

/-! ### Values -/

namespace Json

mutual

/-- In every object in a value a name stands once: an object is a table of its members. -/
def uniqueNames : Json → Bool
  | .obj members => decide (members.map Prod.fst).Nodup && uniqueInMembers members
  | .arr items => uniqueInItems items
  | _ => true

/-- So it is in the members of an object. -/
def uniqueInMembers : List (String × Json) → Bool
  | [] => true
  | (_, value) :: rest => uniqueNames value && uniqueInMembers rest

/-- So it is in the items of a list. -/
def uniqueInItems : List Json → Bool
  | [] => true
  | value :: rest => uniqueNames value && uniqueInItems rest

end

/-- One place in a value comes before another one in pre-order: it is above it, or it branches off
into an earlier member or item. -/
inductive Precedes : Json → Path → Path → Prop
  | above {value : Json} {part : PathPart} {rest : Path} : Precedes value [] (part :: rest)
  | member {members : List (String × Json)} {name : String} {value : Json} {first second : Path}
    (hv : member? name members = some value) (h : Precedes value first second) :
    Precedes (.obj members) (.member name :: first) (.member name :: second)
  | members {members : List (String × Json)} {name other : String} {first second : Path}
    (h : [name, other].Sublist (members.map Prod.fst)) :
    Precedes (.obj members) (.member name :: first) (.member other :: second)
  | item {items : List Json} {index : Nat} {value : Json} {first second : Path}
    (hv : items[index]? = some value) (h : Precedes value first second) :
    Precedes (.arr items) (.item index :: first) (.item index :: second)
  | items {items : List Json} {index later : Nat} {first second : Path} (h : index < later) :
    Precedes (.arr items) (.item index :: first) (.item later :: second)

theorem uniqueNames_of_member? {name : String} {members : List (String × Json)} {value : Json}
    (h : member? name members = some value) (hu : uniqueInMembers members = true) :
    value.uniqueNames = true := by
  induction members with
  | nil => cases h
  | cons member rest ih =>
    obtain ⟨key, other⟩ := member
    obtain ⟨hother, hrest⟩ := Bool.and_eq_true_iff.mp hu
    rw [member?] at h
    split at h
    · obtain rfl := Option.some.inj h
      exact hother
    · exact ih h hrest

theorem uniqueNames_of_mem {items : List Json} {value : Json} (h : value ∈ items)
    (hu : uniqueInItems items = true) : value.uniqueNames = true := by
  induction items with
  | nil => cases h
  | cons item rest ih =>
    obtain ⟨hitem, hrest⟩ := Bool.and_eq_true_iff.mp hu
    obtain rfl | h := List.mem_cons.mp h
    · exact hitem
    · exact ih h hrest

/-- No place comes before itself. -/
theorem Precedes.ne {value : Json} {first second : Path} (h : Precedes value first second)
    (hu : value.uniqueNames = true) : first ≠ second := by
  induction h with
  | above => exact nofun
  | member hv _ ih =>
    obtain ⟨-, hinside⟩ := Bool.and_eq_true_iff.mp hu
    intro heq
    exact ih (uniqueNames_of_member? hv hinside) (List.cons.inj heq).2
  | members h =>
    obtain ⟨hnodup, -⟩ := Bool.and_eq_true_iff.mp hu
    have hne := (List.nodup_cons.mp ((of_decide_eq_true hnodup).sublist h)).1
    intro heq
    have hname := PathPart.member.inj (List.cons.inj heq).1
    exact hne (List.mem_singleton.mpr hname)
  | item hv _ ih =>
    intro heq
    exact ih (uniqueNames_of_mem (List.mem_of_getElem? hv) hu) (List.cons.inj heq).2
  | items h =>
    intro heq
    have hindex := PathPart.item.inj (List.cons.inj heq).1
    omega

theorem follow?_member (name : String) (members : List (String × Json)) (path : Path) :
    (Json.obj members).follow? (.member name :: path)
      = (member? name members).bind fun value => value.follow? path := rfl

theorem follow?_item (items : List Json) (index : Nat) (path : Path) :
    (Json.arr items).follow? (.item index :: path)
      = items[index]?.bind fun value => value.follow? path := by
  rw [Json.follow?, if_neg (by omega), Int.toNat_natCast]

theorem member?_isSome_iff {name : String} {members : List (String × Json)} :
    (member? name members).isSome = true ↔ name ∈ members.map Prod.fst := by
  induction members with
  | nil => simp [member?]
  | cons member rest ih =>
    obtain ⟨key, value⟩ := member
    rw [member?, List.map_cons, List.mem_cons]
    split
    · rename_i heq
      exact ⟨fun _ => .inl heq.symm, fun _ => rfl⟩
    · rename_i hne
      rw [ih]
      exact ⟨.inr, fun h => h.resolve_left (Ne.symm hne)⟩

/-- Where a name stands once, it has the value beside it. -/
theorem member?_append_cons {name : String} {value : Json} {before after : List (String × Json)}
    (h : name ∉ before.map Prod.fst) :
    member? name (before ++ (name, value) :: after) = some value := by
  induction before with
  | nil => exact if_pos rfl
  | cons member rest ih =>
    obtain ⟨hne, hrest⟩ := List.ne_and_not_mem_of_not_mem_cons h
    rw [List.cons_append, member?, if_neg (Ne.symm hne), ih hrest]

end Json

namespace SyntaxTree

open Json (uniqueNames uniqueInMembers uniqueInItems member? Precedes)

/-! ### Nodes -/

/-- An object of these members is a node. -/
def IsNode (members : List (String × Json)) : Prop :=
  (member? "nodeType" members).isSome ∧ (member? "id" members).isSome ∧
    (member? "src" members).isSome

/-- A node has the type and the identity of the object that it is, and its span is that of the
source attribute: three integers separated by colons. -/
structure Mirrors (node : Node) : Prop where
  nodeType : member? "nodeType" node.members = some node.nodeType
  id : ∃ id, member? "id" node.members = some id ∧ NodeId.ofJson id = .ok node.id
  span : ∃ text, member? "src" node.members = some (.str text) ∧
    (Text.splitBy ':' text.toList).map (Text.readInteger 10)
      = [some node.span.start, some node.span.length, some node.span.fileIndex]

theorem map_eq_of_mapM_eq_some {α β : Type} {f : α → Option β} {xs : List α} {ys : List β}
    (h : xs.mapM f = some ys) : xs.map f = ys.map some := by
  induction xs generalizing ys with
  | nil =>
    obtain rfl := Option.some.inj h
    rfl
  | cons x xs ih =>
    rw [List.mapM_cons] at h
    obtain ⟨y, hy, h⟩ := Option.bind_eq_some_iff.mp h
    obtain ⟨rest, hrest, h⟩ := Option.bind_eq_some_iff.mp h
    obtain rfl := Option.some.inj h
    rw [List.map_cons, List.map_cons, hy, ih hrest]

theorem readIntegers_of_parseSpan {text : String} {span : SourceMap.Span}
    (h : SourceMap.parseSpan text = .ok span) :
    (Text.splitBy ':' text.toList).map (Text.readInteger 10)
      = [some span.start, some span.length, some span.fileIndex] := by
  rw [SourceMap.parseSpan] at h
  split at h
  · rename_i start length fileIndex hread
    obtain rfl := Except.ok.inj h
    exact map_eq_of_mapM_eq_some hread
  · cases h

/-- An object is found to be a node, with its own data, or not to be one. -/
theorem nodeAt?_cases {path : Path} {members : List (String × Json)} {here : Option Node}
    (h : nodeAt? path members = .ok here) :
    (∃ node, here = some node ∧ node.path = path ∧ node.members = members ∧ Mirrors node
        ∧ IsNode members)
      ∨ here = none ∧ ¬ IsNode members := by
  rw [nodeAt?] at h
  -- a node has a type, an identity and a span that is a text; one that cannot be read is a fault
  split at h
  · rename_i nodeType id src hnodeType hid hsrc
    dsimp only at h
    split at h
    · rename_i text
      obtain ⟨span, hspan, h⟩ := exists_of_bind_eq_ok h
      obtain ⟨nodeId, hnodeId, h⟩ := exists_of_bind_eq_ok h
      obtain rfl := Except.ok.inj h
      refine .inl ⟨_, rfl, rfl, rfl, ⟨hnodeType, ⟨id, hid, hnodeId⟩, text, hsrc,
        readIntegers_of_parseSpan hspan⟩, ?_⟩
      rw [IsNode, hnodeType, hid, hsrc]
      exact ⟨rfl, rfl, rfl⟩
    · cases h
  · rename_i hnot
    refine .inr ⟨(Except.ok.inj h).symm, ?_⟩
    rintro ⟨hnodeType, hid, hsrc⟩
    obtain ⟨nodeType, hnodeType⟩ := Option.isSome_iff_exists.mp hnodeType
    obtain ⟨id, hid⟩ := Option.isSome_iff_exists.mp hid
    obtain ⟨src, hsrc⟩ := Option.isSome_iff_exists.mp hsrc
    exact hnot _ _ _ hnodeType hid hsrc

/-! ### Nodes in pre-order -/

/-- Some nodes below a path are the nodes among the objects that stand at certain places, and the
places come one before the other. -/
structure Enumerates (path : Path) (stands : Path → List (String × Json) → Prop)
    (precedes : Path → Path → Prop) (nodes : List Node) : Prop where
  found : ∀ node ∈ nodes, ∃ place, node.path = path ++ place ∧ stands place node.members ∧
    Mirrors node ∧ IsNode node.members
  all : ∀ place members, stands place members → IsNode members →
    ∃ node ∈ nodes, node.path = path ++ place
  sorted : nodes.Pairwise fun node later => ∃ first second, node.path = path ++ first ∧
    later.path = path ++ second ∧ precedes first second

namespace Enumerates

variable {path : Path} {stands stands' : Path → List (String × Json) → Prop}
  {precedes : Path → Path → Prop} {nodes others : List Node}

theorem congr (h : Enumerates path stands precedes nodes)
    (hs : ∀ place members, stands' place members ↔ stands place members) :
    Enumerates path stands' precedes nodes := by
  refine ⟨fun node hn => ?_, fun place members hp => h.all place members ((hs _ _).mp hp), h.sorted⟩
  obtain ⟨place, hpath, hstands, hnode⟩ := h.found node hn
  exact ⟨place, hpath, (hs _ _).mpr hstands, hnode⟩

theorem nil (hs : ∀ place members, ¬ stands place members) :
    Enumerates path stands precedes [] :=
  ⟨fun _ hn => absurd hn List.not_mem_nil, fun place members hp => absurd hp (hs place members),
    .nil⟩

/-- The nodes at some places, and then those at later ones. -/
theorem append (h : Enumerates path stands precedes nodes)
    (h' : Enumerates path stands' precedes others)
    (hp : ∀ {first second members members'}, stands first members → stands' second members' →
      precedes first second) :
    Enumerates path (fun place members => stands place members ∨ stands' place members) precedes
      (nodes ++ others) := by
  refine ⟨fun node hn => ?_, fun place members hstands hnode => ?_, ?_⟩
  · rcases List.mem_append.mp hn with hn | hn
    · obtain ⟨place, hpath, hstands, hnode⟩ := h.found node hn
      exact ⟨place, hpath, .inl hstands, hnode⟩
    · obtain ⟨place, hpath, hstands, hnode⟩ := h'.found node hn
      exact ⟨place, hpath, .inr hstands, hnode⟩
  · rcases hstands with hstands | hstands
    · obtain ⟨node, hmem, hpath⟩ := h.all place members hstands hnode
      exact ⟨node, List.mem_append_left _ hmem, hpath⟩
    · obtain ⟨node, hmem, hpath⟩ := h'.all place members hstands hnode
      exact ⟨node, List.mem_append_right _ hmem, hpath⟩
  · refine List.pairwise_append.mpr ⟨h.sorted, h'.sorted, fun node hn later hl => ?_⟩
    obtain ⟨first, hfirst, hstands, -⟩ := h.found node hn
    obtain ⟨second, hsecond, hstands', -⟩ := h'.found later hl
    exact ⟨first, second, hfirst, hsecond, hp hstands hstands'⟩

/-- The nodes at some places below a part of a path. -/
theorem under {part : PathPart} {below : Path → Path → Prop}
    (h : Enumerates (path ++ [part]) stands below nodes)
    (hp : ∀ {first second}, below first second → precedes (part :: first) (part :: second)) :
    Enumerates path (fun place members => ∃ rest, place = part :: rest ∧ stands rest members)
      precedes nodes := by
  have happend (rest : Path) : path ++ [part] ++ rest = path ++ part :: rest := by
    rw [List.append_assoc]
    rfl
  refine ⟨fun node hn => ?_, fun place members hstands hnode => ?_, ?_⟩
  · obtain ⟨rest, hpath, hstands, hnode⟩ := h.found node hn
    exact ⟨part :: rest, hpath.trans (happend rest), ⟨rest, rfl, hstands⟩, hnode⟩
  · obtain ⟨rest, rfl, hstands⟩ := hstands
    obtain ⟨node, hmem, hpath⟩ := h.all rest members hstands hnode
    exact ⟨node, hmem, hpath.trans (happend rest)⟩
  · refine h.sorted.imp fun hbelow => ?_
    obtain ⟨first, second, hfirst, hsecond, hbelow⟩ := hbelow
    exact ⟨part :: first, part :: second, hfirst.trans (happend first),
      hsecond.trans (happend second), hp hbelow⟩

/-- An object is the only node at its own place, or there is none. -/
theorem here {members : List (String × Json)} {found : Option Node}
    (h : nodeAt? path members = .ok found) :
    Enumerates path (fun place inside => place = [] ∧ inside = members) precedes
      found.toList := by
  obtain ⟨node, rfl, hpath, rfl, hmirrors, hnode⟩ | ⟨rfl, hnot⟩ := nodeAt?_cases h
  · refine ⟨fun other ho => ?_, fun place members hp _ => ?_, List.pairwise_singleton _ _⟩
    · obtain rfl := List.mem_singleton.mp ho
      exact ⟨[], hpath.trans (List.append_nil _).symm, ⟨rfl, rfl⟩, hmirrors, hnode⟩
    · obtain ⟨rfl, -⟩ := hp
      exact ⟨node, List.mem_singleton.mpr rfl, hpath.trans (List.append_nil _).symm⟩
  · refine ⟨fun other ho => absurd ho List.not_mem_nil, fun place inside hp hnode => ?_, .nil⟩
    obtain ⟨-, rfl⟩ := hp
    exact absurd hnode hnot

end Enumerates

/-- An object of a value stands at a place in it. -/
def StandsIn (value : Json) (place : Path) (members : List (String × Json)) : Prop :=
  value.follow? place = some (.obj members)

/-- An object stands at a place in one of some members. -/
def StandsAmong (members : List (String × Json)) (names : List String) (place : Path)
    (inside : List (String × Json)) : Prop :=
  ∃ name rest, name ∈ names ∧ place = .member name :: rest ∧ StandsIn (.obj members) place inside

/-- An object stands at a place in one of the items from an index on. -/
def StandsFrom (items : List Json) (index : Nat) (place : Path)
    (inside : List (String × Json)) : Prop :=
  ∃ (later : Nat) (rest : Path), index ≤ later ∧ place = .item later :: rest ∧
    StandsIn (.arr items) place inside

section

variable {members inside : List (String × Json)} {items : List Json} {place : Path} {value : Json}

theorem standsIn_obj : StandsIn (.obj members) place inside ↔
    place = [] ∧ inside = members ∨ StandsAmong members (members.map Prod.fst) place inside := by
  constructor
  · intro h
    cases place with
    | nil =>
      obtain rfl := Json.obj.inj (Option.some.inj h)
      exact .inl ⟨rfl, rfl⟩
    | cons part rest =>
      cases part with
      | item index => cases h
      | member name =>
        refine .inr ⟨name, rest, ?_, rfl, h⟩
        obtain ⟨value, hvalue, -⟩ := Option.bind_eq_some_iff.mp h
        exact Json.member?_isSome_iff.mp (Option.isSome_iff_exists.mpr ⟨value, hvalue⟩)
  · rintro (⟨rfl, rfl⟩ | ⟨name, rest, -, -, h⟩)
    · rfl
    · exact h

theorem standsAmong_cons {name : String} {names : List String}
    (hmember : member? name members = some value) :
    StandsAmong members (name :: names) place inside ↔
      (∃ below, place = .member name :: below ∧ StandsIn value below inside) ∨
        StandsAmong members names place inside := by
  constructor
  · rintro ⟨other, below, hother, rfl, hs⟩
    rcases List.mem_cons.mp hother with rfl | hother
    · refine .inl ⟨below, rfl, ?_⟩
      rwa [StandsIn, Json.follow?_member, hmember] at hs
    · exact .inr ⟨other, below, hother, rfl, hs⟩
  · rintro (⟨below, rfl, hs⟩ | ⟨other, below, hother, rfl, hs⟩)
    · refine ⟨name, below, List.mem_cons_self, rfl, ?_⟩
      rwa [StandsIn, Json.follow?_member, hmember]
    · exact ⟨other, below, List.mem_cons_of_mem _ hother, rfl, hs⟩

theorem standsIn_arr : StandsIn (.arr items) place inside ↔ StandsFrom items 0 place inside := by
  constructor
  · intro h
    cases place with
    | nil => cases h
    | cons part rest =>
      cases part with
      | member name => cases h
      | item index =>
        have hindex : 0 ≤ index := by
          by_contra hneg
          rw [StandsIn, Json.follow?, if_pos (by omega)] at h
          cases h
        obtain ⟨n, rfl⟩ := Int.eq_ofNat_of_zero_le hindex
        exact ⟨n, rest, Nat.zero_le n, rfl, h⟩
  · rintro ⟨_, _, _, _, h⟩
    exact h

theorem standsFrom_iff {index : Nat} (hitem : items[index]? = some value) :
    StandsFrom items index place inside ↔
      (∃ below, place = .item index :: below ∧ StandsIn value below inside) ∨
        StandsFrom items (index + 1) place inside := by
  constructor
  · rintro ⟨later, below, hle, rfl, hs⟩
    rcases Nat.eq_or_lt_of_le hle with rfl | hlt
    · refine .inl ⟨below, rfl, ?_⟩
      rwa [StandsIn, Json.follow?_item, hitem] at hs
    · exact .inr ⟨later, below, hlt, rfl, hs⟩
  · rintro (⟨below, rfl, hs⟩ | ⟨later, below, hle, rfl, hs⟩)
    · refine ⟨index, below, Nat.le_refl _, rfl, ?_⟩
      rwa [StandsIn, Json.follow?_item, hitem]
    · exact ⟨later, below, Nat.le_of_succ_le hle, rfl, hs⟩

/-- No object stands behind the end of a list. -/
theorem not_standsFrom_length : ¬ StandsFrom items items.length place inside := by
  rintro ⟨later, rest, hle, rfl, hs⟩
  rw [StandsIn, Json.follow?_item, List.getElem?_eq_none hle] at hs
  cases hs

end

/-- **The walk through a value finds its nodes in pre-order.**  In an object the members that have
been walked through stand before the others, and in a list the items. -/
theorem enumerates_walk :
    (∀ path value, ∀ nodes, value.uniqueNames = true → walk path value = .ok nodes →
      Enumerates path (StandsIn value) value.Precedes nodes) ∧
    (∀ path index items, ∀ before nodes, before.length = index →
      uniqueInItems items = true → walkItems path index items = .ok nodes →
      Enumerates path (StandsFrom (before ++ items) index) (Json.arr (before ++ items)).Precedes
        nodes) ∧
    ∀ path members, ∀ before nodes, ((before ++ members).map Prod.fst).Nodup →
      uniqueInMembers members = true → walkMembers path members = .ok nodes →
      Enumerates path (StandsAmong (before ++ members) (members.map Prod.fst))
        (Json.obj (before ++ members)).Precedes nodes := by
  apply walk.mutual_induct
  case case1 =>
    intro path members ih nodes hu h
    obtain ⟨hnodup, hinside⟩ := Bool.and_eq_true_iff.mp hu
    rw [walk] at h
    obtain ⟨here, hhere, h⟩ := exists_of_bind_eq_ok h
    obtain ⟨below, hbelow, h⟩ := exists_of_bind_eq_ok h
    obtain rfl := Except.ok.inj h
    have hown : Enumerates path (fun place inside => place = [] ∧ inside = members)
        (Json.obj members).Precedes here.toList := .here hhere
    refine (hown.append (ih [] below (of_decide_eq_true hnodup) hinside hbelow) ?_).congr
      fun place inside => standsIn_obj
    rintro first second inside inside' ⟨rfl, -⟩ ⟨name, rest, -, rfl, -⟩
    exact .above
  case case2 =>
    intro path items ih nodes hu h
    rw [walk] at h
    exact (ih [] nodes rfl hu h).congr fun place inside => standsIn_arr
  case case3 =>
    intro value path hobj harr nodes hu h
    cases value
    case obj members => exact (hobj members rfl).elim
    case arr items => exact (harr items rfl).elim
    all_goals
      obtain rfl := Except.ok.inj h
      refine .nil fun place inside hs => ?_
      rcases place with _ | ⟨_ | _, _⟩ <;> cases hs
  case case4 =>
    intro path index before nodes hlen hu h
    obtain rfl := Except.ok.inj h
    refine .nil fun place inside => ?_
    rw [List.append_nil, ← hlen]
    exact not_standsFrom_length
  case case5 =>
    -- the first item is seen in the whole list, and the walk through the others by the induction
    intro path index value rest ihvalue ihrest before nodes hlen hu h
    obtain ⟨hvalue, hrest⟩ := Bool.and_eq_true_iff.mp hu
    rw [walkItems] at h
    obtain ⟨first, hfirst, h⟩ := exists_of_bind_eq_ok h
    obtain ⟨others, hothers, h⟩ := exists_of_bind_eq_ok h
    obtain rfl := Except.ok.inj h
    have hsplit : before ++ value :: rest = (before ++ [value]) ++ rest := by simp
    have hitem : (before ++ value :: rest)[index]? = some value := by simp [← hlen]
    have hone : Enumerates path (fun place inside => ∃ below, place = .item index :: below ∧
        StandsIn value below inside) (Json.arr (before ++ value :: rest)).Precedes first :=
      (ihvalue first hvalue hfirst).under (.item hitem)
    have hmore := ihrest (before ++ [value]) others (by simp [hlen]) hrest hothers
    rw [← hsplit] at hmore
    refine (hone.append hmore ?_).congr fun place inside => standsFrom_iff hitem
    rintro place place' inside inside' ⟨below, rfl, -⟩ ⟨later, below', hle, rfl, -⟩
    exact .items hle
  case case6 =>
    intro path before nodes hnodup hu h
    obtain rfl := Except.ok.inj h
    refine .nil fun place inside => ?_
    rintro ⟨name, rest, hname, -⟩
    exact absurd hname List.not_mem_nil
  case case7 =>
    intro path name value rest ihvalue ihrest before nodes hnodup hu h
    obtain ⟨hvalue, hrest⟩ := Bool.and_eq_true_iff.mp hu
    rw [walkMembers] at h
    obtain ⟨first, hfirst, h⟩ := exists_of_bind_eq_ok h
    obtain ⟨others, hothers, h⟩ := exists_of_bind_eq_ok h
    obtain rfl := Except.ok.inj h
    have hsplit : before ++ (name, value) :: rest = (before ++ [(name, value)]) ++ rest := by simp
    have hnames : (before ++ (name, value) :: rest).map Prod.fst
        = before.map Prod.fst ++ name :: rest.map Prod.fst := by simp
    rw [hnames] at hnodup
    -- the name does not stand among the members before, so it is this one that it leads to
    have hmember : member? name (before ++ (name, value) :: rest) = some value :=
      Json.member?_append_cons fun hm =>
        (List.nodup_append.mp hnodup).2.2 name hm name List.mem_cons_self rfl
    have hone : Enumerates path (fun place inside => ∃ below, place = .member name :: below ∧
        StandsIn value below inside) (Json.obj (before ++ (name, value) :: rest)).Precedes first :=
      (ihvalue first hvalue hfirst).under (.member hmember)
    have hmore := ihrest (before ++ [(name, value)]) others
      (by rw [← hsplit, hnames]; exact hnodup) hrest hothers
    rw [← hsplit] at hmore
    refine (hone.append hmore ?_).congr fun place inside => standsAmong_cons hmember
    rintro place place' inside inside' ⟨below, rfl, -⟩ ⟨other, below', hother, rfl, -⟩
    refine .members ?_
    rw [hnames]
    exact ((List.singleton_sublist.mpr hother).cons_cons name).trans
      (List.sublist_append_right _ _)

/-! ### Looking nodes up -/

theorem foldl_setEntry_find? (nodes : List Node) (id : NodeId) :
    valueOf? id (nodes.foldl (fun table node => setEntry node.id node table) [])
      = nodes.reverse.find? fun node => node.id = id := by
  induction nodes using List.reverseRecOn with
  | nil => rfl
  | append_singleton nodes node ih =>
    rw [List.foldl_concat, List.reverse_concat, List.find?_cons]
    by_cases hid : node.id = id
    · rw [← hid, valueOf?_setEntry_self, decide_eq_true rfl]
    · rw [valueOf?_setEntry_of_ne (Ne.symm hid), ih, decide_eq_false hid]

/-- The table of identities has the last node of each. -/
theorem valueOf?_byId (tree : SyntaxTree) (id : NodeId) :
    valueOf? id tree.byId = tree.node? id := foldl_setEntry_find? tree.nodes id

/-- A node is the last one of its identity. -/
theorem node?_eq_some_iff {tree : SyntaxTree} {id : NodeId} {node : Node} :
    tree.node? id = some node ↔ ∃ before after, tree.nodes = before ++ node :: after ∧
      node.id = id ∧ ∀ later ∈ after, later.id ≠ id := by
  rw [node?, List.find?_eq_some_iff_append]
  constructor
  · rintro ⟨hid, after, before, hnodes, hafter⟩
    refine ⟨before.reverse, after.reverse, ?_, of_decide_eq_true hid, fun later hl => ?_⟩
    · rw [← List.reverse_reverse tree.nodes, hnodes]
      simp
    · simpa using hafter later (List.mem_reverse.mp hl)
  · rintro ⟨before, after, hnodes, hid, hafter⟩
    refine ⟨decide_eq_true hid, after.reverse, before.reverse, ?_, fun later hl => ?_⟩
    · rw [hnodes]
      simp
    · simpa using hafter later (List.mem_reverse.mp hl)

theorem node_eq_ok_iff {tree : SyntaxTree} {id : NodeId} {node : Node} :
    tree.node id = .ok node ↔ tree.node? id = some node := by
  rw [SyntaxTree.node]
  cases tree.node? id <;> simp

theorem node_of_forall_ne {tree : SyntaxTree} {id : NodeId}
    (h : ∀ node ∈ tree.nodes, node.id ≠ id) :
    tree.node id = .error (.nodeNotFound s!"id {id.display}") := by
  have hnone : tree.node? id = none := by
    rw [node?, List.find?_eq_none]
    intro node hn
    simpa using h node (List.mem_reverse.mp hn)
  rw [SyntaxTree.node, hnone]

/-- Where nodes have different paths, the one at a path is found. -/
theorem resolve_eq_ok_iff {tree : SyntaxTree} {path : Path} {node : Node}
    (hd : (tree.nodes.map Node.path).Nodup) :
    tree.resolve path = .ok node ↔ node ∈ tree.nodes ∧ node.path = path := by
  rw [SyntaxTree.resolve]
  constructor
  · intro h
    split at h
    · rename_i found hfound
      obtain rfl := Except.ok.inj h
      exact ⟨List.mem_of_find?_eq_some hfound, by simpa using List.find?_some hfound⟩
    · cases h
  · rintro ⟨hn, rfl⟩
    cases hfound : tree.nodes.find? (fun other => other.path = node.path) with
    | none => simpa using List.find?_eq_none.mp hfound node hn
    | some other =>
      have hsame : other.path = node.path := by simpa using List.find?_some hfound
      rw [List.inj_on_of_nodup_map hd (List.mem_of_find?_eq_some hfound) hn hsame]

theorem resolve_of_forall_ne {tree : SyntaxTree} {path : Path}
    (h : ∀ node ∈ tree.nodes, node.path ≠ path) :
    tree.resolve path = .error (.nodeNotFound path.text) := by
  have hnone : tree.nodes.find? (fun node => node.path = path) = none := by
    rw [List.find?_eq_none]
    intro node hn
    simpa using h node hn
  rw [SyntaxTree.resolve, hnone]

/-- A tree has the nodes of a root, each at its own place, and finds them by place and by
identity. -/
structure Indexes (tree : SyntaxTree) (root : Json) : Prop where
  /-- There is a node at a path if the path leads to an object that is one. -/
  places : ∀ path, (∃ node ∈ tree.nodes, node.path = path) ↔
    ∃ members, root.follow? path = some (.obj members) ∧ IsNode members
  /-- No two nodes have the same path. -/
  distinct : (tree.nodes.map Node.path).Nodup
  /-- A node comes before the nodes inside it, and before those in later members and items. -/
  ordered : tree.nodes.Pairwise fun node later => root.Precedes node.path later.path
  /-- The path of a node leads to the object that it is, which has its identity and span. -/
  reached : ∀ node ∈ tree.nodes, root.follow? node.path = some node.raw ∧ Mirrors node
  /-- The node at a path is found. -/
  resolves : ∀ path node, tree.resolve path = .ok node ↔ node ∈ tree.nodes ∧ node.path = path
  /-- At any other path none is. -/
  resolves_not : ∀ path, (∀ node ∈ tree.nodes, node.path ≠ path) →
    tree.resolve path = .error (.nodeNotFound path.text)
  /-- The last node of an identity is found. -/
  identifies : ∀ id node, tree.node id = .ok node ↔ ∃ before after,
    tree.nodes = before ++ node :: after ∧ node.id = id ∧ ∀ later ∈ after, later.id ≠ id
  /-- For any other identity none is. -/
  identifies_not : ∀ id, (∀ node ∈ tree.nodes, node.id ≠ id) →
    tree.node id = .error (.nodeNotFound s!"id {id.display}")
  /-- It is the one in the table of identities. -/
  tabulated : ∀ id, valueOf? id tree.byId = tree.node? id

theorem walk_of_ofJson {index : Int} {root : Json} {tree : SyntaxTree}
    (h : ofJson index root = .ok tree) : walk [] root = .ok tree.nodes := by
  rw [ofJson] at h
  split at h
  · cases h
  · obtain ⟨nodes, hnodes, rfl⟩ := exists_of_map_eq_ok h
    exact hnodes

/-- **A tree has the nodes of its root in pre-order, and finds them by place and by identity.** -/
theorem indexes_ofJson {index : Int} {root : Json} {tree : SyntaxTree}
    (h : ofJson index root = .ok tree) (hu : root.uniqueNames = true) : tree.Indexes root := by
  -- the walk lists the places from the root, so that their paths have nothing before them
  have hall := enumerates_walk.1 [] root tree.nodes hu (walk_of_ofJson h)
  have hreached : ∀ node ∈ tree.nodes, root.follow? node.path = some node.raw ∧ Mirrors node ∧
      IsNode node.members := by
    intro node hn
    obtain ⟨place, hpath, hstands, hmirrors, hnode⟩ := hall.found node hn
    rw [List.nil_append] at hpath
    exact ⟨hpath ▸ hstands, hmirrors, hnode⟩
  have hordered : tree.nodes.Pairwise fun node later => root.Precedes node.path later.path := by
    refine hall.sorted.imp fun hsorted => ?_
    obtain ⟨first, second, hfirst, hsecond, hprecedes⟩ := hsorted
    rw [hfirst, hsecond, List.nil_append, List.nil_append]
    exact hprecedes
  have hdistinct : (tree.nodes.map Node.path).Nodup :=
    List.pairwise_map.mpr (hordered.imp fun hprecedes => hprecedes.ne hu)
  refine
    { places := fun path => ⟨?_, ?_⟩
      distinct := hdistinct
      ordered := hordered
      reached := fun node hn => ⟨(hreached node hn).1, (hreached node hn).2.1⟩
      resolves := fun path node => resolve_eq_ok_iff hdistinct
      resolves_not := fun path => resolve_of_forall_ne
      identifies := fun id node => node_eq_ok_iff.trans node?_eq_some_iff
      identifies_not := fun id => node_of_forall_ne
      tabulated := valueOf?_byId tree }
  · rintro ⟨node, hn, rfl⟩
    exact ⟨node.members, (hreached node hn).1, (hreached node hn).2.2⟩
  · rintro ⟨members, hmembers, hnode⟩
    exact hall.all path members hmembers hnode

/-- A contract, and a statement of the same identity inside what is no node. -/
def contractAndBlock : Json :=
  .obj [("nodeType", .str "SourceUnit"),
    ("nodes", .arr [.null, .obj [("src", .str "10:20:0"), ("id", .int 4),
      ("nodeType", .str "ContractDefinition")]]),
    ("id", .int 9),
    ("block", .obj [("nodeType", .str "Block"), ("statements", .arr [.arr [.obj [
      ("nodeType", .str "Return"), ("id", .int 4), ("src", .str "12:3:0")]]])]),
    ("src", .str "0:40:-1")]

/-- Its nodes, that of the root first. -/
def contractAndBlockNodes : List Node :=
  [⟨.number 9, .str "SourceUnit", ⟨0, 40, -1⟩, [],
      [("nodeType", .str "SourceUnit"),
        ("nodes", .arr [.null, .obj [("src", .str "10:20:0"), ("id", .int 4),
          ("nodeType", .str "ContractDefinition")]]),
        ("id", .int 9),
        ("block", .obj [("nodeType", .str "Block"), ("statements", .arr [.arr [.obj [
          ("nodeType", .str "Return"), ("id", .int 4), ("src", .str "12:3:0")]]])]),
        ("src", .str "0:40:-1")]⟩,
    ⟨.number 4, .str "ContractDefinition", ⟨10, 20, 0⟩, [.member "nodes", .item 1],
      [("src", .str "10:20:0"), ("id", .int 4), ("nodeType", .str "ContractDefinition")]⟩,
    ⟨.number 4, .str "Return", ⟨12, 3, 0⟩,
      [.member "block", .member "statements", .item 0, .item 0],
      [("nodeType", .str "Return"), ("id", .int 4), ("src", .str "12:3:0")]⟩]

theorem contractAndBlock_indexes_ofJson :
    ofJson 0 contractAndBlock = .ok ⟨0, contractAndBlockNodes⟩
      ∧ contractAndBlock.uniqueNames = true
      ∧ SyntaxTree.Indexes ⟨0, contractAndBlockNodes⟩ contractAndBlock := by
  have hbuilt : ofJson 0 contractAndBlock = .ok ⟨0, contractAndBlockNodes⟩ := by rfl
  have hunique : contractAndBlock.uniqueNames = true := by decide
  exact ⟨hbuilt, hunique, indexes_ofJson hbuilt hunique⟩

end SyntaxTree

end TraceDebugger
