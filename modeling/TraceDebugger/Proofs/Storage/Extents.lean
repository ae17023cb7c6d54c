/-
The extents of types.

What a type takes is told by its kind and by the extents of the types that it uses: an array uses
that of its elements, a name for a value type the one that it stands for, and a structure those of
its members.

* `layOut_eq_ok_iff` — declarations are laid out once each of them has its identity and its extent;
* `extentWithin_succ_iff` — the extent of a type, by its kind;
* `Measured.mono` — no other types count than those that it uses;
* `extent_eq_of_extentWithin`, `allocate_eq_of_layOut` — the limit of the depth cuts nothing off: a
  type that has an extent at some depth has it within the limit.
-/
import TraceDebugger.Proofs.SyntaxTree.Tables
import TraceDebugger.Storage.Layout
import Mathlib.Data.List.Nodup
import Mathlib.Data.List.Perm.Subperm
import Mathlib.Logic.Relation

namespace TraceDebugger.Storage

open SyntaxTree (valueOf?)

variable {definitions : Definitions} {extent inner outer : Json → Except Fault Extent}
  {typeName used declared referenced : Json} {room : Extent} {depth : Nat}

/-! ### Declarations -/

/-- What a declaration is laid out under. -/
def declaredId (declared : Json) : Except Fault NodeId := do
  NodeId.ofJson (← declared.require "id")

/-- The type of a declaration, or null where it has none.  A declaration that stands among the
definitions is taken from there. -/
def declaredType (definitions : Definitions) (declared : Json) : Except Fault Json := do
  ((valueOf? (← declaredId declared) definitions).getD declared).lookupOrNull "typeName"

/-- A declaration is laid out under its identity, with the extent of its type. -/
def EntersAs (definitions : Definitions) (extent : Json → Except Fault Extent) (declared : Json)
    (entry : NodeId × Extent) : Prop :=
  declaredId declared = .ok entry.1 ∧ ∃ typeName, declaredType definitions declared = .ok typeName ∧
    typeName ≠ .null ∧ extent typeName = .ok entry.2

/-- Give some variables their rooms, one after the other. -/
def Cursor.placeAll (cursor : Cursor) (entries : List (NodeId × Extent)) : Cursor :=
  entries.foldl (fun cursor entry => cursor.place entry.1 entry.2) cursor

/-- A declaration is given the room of its type. -/
theorem placeDeclaration_eq_ok_iff {cursor next : Cursor} :
    placeDeclaration definitions extent cursor declared = .ok next ↔
      ∃ entry, EntersAs definitions extent declared entry ∧
        next = cursor.place entry.1 entry.2 := by
  rw [placeDeclaration]
  constructor
  · intro h
    obtain ⟨idValue, hvalue, h⟩ := exists_of_bind_eq_ok h
    obtain ⟨id, hid, h⟩ := exists_of_bind_eq_ok h
    obtain ⟨typeName, htype, h⟩ := exists_of_bind_eq_ok h
    -- the identity is read first, as it is when only the identities are asked for
    have hdeclared : declaredId declared = .ok id := by
      rw [declaredId, bind_of_eq_ok hvalue, hid]
    split at h
    · cases h
    · rename_i hne
      obtain ⟨room, hroom, h⟩ := exists_of_bind_eq_ok h
      refine ⟨(id, room), ⟨hdeclared, typeName, ?_, hne, hroom⟩, (Except.ok.inj h).symm⟩
      rw [declaredType, bind_of_eq_ok hdeclared]
      exact htype
  · rintro ⟨⟨id, room⟩, ⟨hid, typeName, htype, hne, hroom⟩, rfl⟩
    rw [declaredType, bind_of_eq_ok hid] at htype
    obtain ⟨idValue, hvalue, hid⟩ := exists_of_bind_eq_ok hid
    rw [bind_of_eq_ok hvalue, bind_of_eq_ok hid]
    dsimp only
    rw [bind_of_eq_ok htype]
    split
    · exact absurd rfl hne
    · rw [hroom]
      rfl

theorem foldlM_placeDeclaration_eq_ok_iff {declarations : List Json} {cursor last : Cursor} :
    declarations.foldlM (placeDeclaration definitions extent) cursor = .ok last ↔
      ∃ entries, List.Forall₂ (EntersAs definitions extent) declarations entries ∧
        last = cursor.placeAll entries := by
  -- on the declarations; the cursor after the first is where the rest begin
  induction declarations generalizing cursor with
  | nil =>
    constructor
    · intro h
      exact ⟨[], .nil, (Except.ok.inj h).symm⟩
    · rintro ⟨entries, hentries, rfl⟩
      obtain rfl := List.forall₂_nil_left_iff.mp hentries
      rfl
  | cons declared rest ih =>
    rw [List.foldlM_cons]
    constructor
    · intro h
      obtain ⟨next, hnext, h⟩ := exists_of_bind_eq_ok h
      obtain ⟨entry, hentry, rfl⟩ := placeDeclaration_eq_ok_iff.mp hnext
      obtain ⟨entries, hentries, rfl⟩ := ih.mp h
      exact ⟨entry :: entries, .cons hentry hentries, rfl⟩
    · rintro ⟨entries, hentries, rfl⟩
      obtain ⟨entry, entries, hentry, hrest, rfl⟩ := List.forall₂_cons_left_iff.mp hentries
      rw [placeDeclaration_eq_ok_iff.mpr ⟨entry, hentry, rfl⟩]
      exact ih.mpr ⟨entries, hrest, rfl⟩

/-- Declarations are laid out once each of them has its identity and its extent. -/
theorem layOut_eq_ok_iff {declarations : List Json} {allocation : Allocation} :
    layOut definitions extent declarations = .ok allocation ↔
      ∃ entries, List.Forall₂ (EntersAs definitions extent) declarations entries ∧
        allocation = (Cursor.placeAll {} entries).finish := by
  rw [layOut]
  constructor
  · intro h
    obtain ⟨last, hlast, rfl⟩ := exists_of_map_eq_ok h
    obtain ⟨entries, hentries, rfl⟩ := foldlM_placeDeclaration_eq_ok_iff.mp hlast
    exact ⟨entries, hentries, rfl⟩
  · rintro ⟨entries, hentries, rfl⟩
    rw [foldlM_placeDeclaration_eq_ok_iff.mpr ⟨entries, hentries, rfl⟩]
    rfl

/-! ### Kinds of types -/

/-- A value is an object of a node type. -/
def HasType (value : Json) (nodeType : String) : Prop :=
  value.lookupOrNull "nodeType" = .ok (.str nodeType)

theorem HasType.unique {value : Json} {first second : String} (h : HasType value first)
    (h' : HasType value second) : first = second :=
  Json.str.inj (Except.ok.inj (h.symm.trans h'))

/-- A type names a definition. -/
def Names (definitions : Definitions) (typeName referenced : Json) : Prop :=
  HasType typeName "UserDefinedTypeName" ∧
    ∃ id, NodeId.ofJson ((typeName.get? "referencedDeclaration").getD .null) = .ok id ∧
      definition? definitions id = some referenced

/-- The members that a structure declares. -/
def membersOf (referenced : Json) : Except Fault (List Json) :=
  ((referenced.get? "members").getD (.arr [])).items

/-- The extent of a type by its kind, from those that are found for the types that it uses. -/
inductive Measured (definitions : Definitions) (inner : Json → Except Fault Extent)
    (typeName : Json) : Extent → Prop
  | elementary {name : String} {bytes : Int} (h : HasType typeName "ElementaryTypeName")
      (hname : (typeName.get? "name").getD (.str "") = .str name)
      (hbytes : elementaryBytes name = .ok bytes) :
      Measured definitions inner typeName (.packed bytes)
  | mapping (h : HasType typeName "Mapping") : Measured definitions inner typeName (.slots 1)
  | dynamic (h : HasType typeName "ArrayTypeName")
      (hlength : (typeName.get? "length").getD .null = .null) :
      Measured definitions inner typeName (.slots 1)
  | array {base : Json} {count : Int} {element room : Extent}
      (h : HasType typeName "ArrayTypeName")
      (hlength : (typeName.get? "length").getD .null ≠ .null)
      (hcount : arrayCount ((typeName.get? "length").getD .null) = .ok count)
      (hbase : typeName.require "baseType" = .ok base) (helement : inner base = .ok element)
      (hroom : arrayExtent count element = .ok room) : Measured definitions inner typeName room
  | contract {referenced : Json} (h : Names definitions typeName referenced)
      (hkind : HasType referenced "ContractDefinition") :
      Measured definitions inner typeName (.packed 20)
  | enumeration {referenced : Json} (h : Names definitions typeName referenced)
      (hkind : HasType referenced "EnumDefinition") :
      Measured definitions inner typeName (.packed 1)
  | valueType {referenced underlying : Json} {room : Extent}
      (h : Names definitions typeName referenced)
      (hkind : HasType referenced "UserDefinedValueTypeDefinition")
      (hunderlying : referenced.require "underlyingType" = .ok underlying)
      (hroom : inner underlying = .ok room) : Measured definitions inner typeName room
  | struct {referenced : Json} {members : List Json} {allocation : Allocation}
      (h : Names definitions typeName referenced)
      (hkind : HasType referenced "StructDefinition")
      (hmembers : membersOf referenced = .ok members)
      (hlayout : layOut definitions inner members = .ok allocation) :
      Measured definitions inner typeName (.slots allocation.slotsUsed)
  | function (h : HasType typeName "FunctionTypeName") : Measured definitions inner typeName
      (.packed (if SyntaxTree.isText "external" ((typeName.get? "visibility").getD .null)
        then 24 else 8))

/-- The extent of a type that names a definition goes by the kind of the definition. -/
theorem extentWithin_of_names {kind : String} (h : Names definitions typeName referenced)
    (hkind : HasType referenced kind) :
    extentWithin definitions (depth + 1) typeName = match Json.str kind with
      | .str "ContractDefinition" => .ok (.packed 20)
      | .str "EnumDefinition" => .ok (.packed 1)
      | .str "UserDefinedValueTypeDefinition" => do
        extentWithin definitions depth (← referenced.require "underlyingType")
      | .str "StructDefinition" => do
        let members ← membersOf referenced
        let inner ← layOut definitions (extentWithin definitions depth) members
        return .slots inner.slotsUsed
      | kind => .error (.unsupportedDefinition kind.display) := by
  obtain ⟨htype, id, hid, hreferenced⟩ := h
  rw [extentWithin, bind_of_eq_ok htype]
  dsimp only
  rw [bind_of_eq_ok hid, hreferenced]
  dsimp only
  rw [bind_of_eq_ok hkind]
  rfl

/-- A type has the extent that its kind tells. -/
theorem extentWithin_succ_iff :
    extentWithin definitions (depth + 1) typeName = .ok room ↔
      Measured definitions (extentWithin definitions depth) typeName room := by
  constructor
  · intro h
    rw [extentWithin] at h
    obtain ⟨nodeType, htype, h⟩ := exists_of_bind_eq_ok h
    -- the branches stand in the order of the kinds: elementary, mapping, array, named, function
    dsimp only at h
    split at h
    · split at h
      · rename_i name hname
        obtain ⟨bytes, hbytes, h⟩ := exists_of_bind_eq_ok h
        obtain rfl := Except.ok.inj h
        exact .elementary htype hname hbytes
      · cases h
    · obtain rfl := Except.ok.inj h
      exact .mapping htype
    · split at h
      · rename_i hlength
        obtain rfl := Except.ok.inj h
        exact .dynamic htype hlength
      · rename_i hlength
        obtain ⟨count, hcount, h⟩ := exists_of_bind_eq_ok h
        obtain ⟨base, hbase, h⟩ := exists_of_bind_eq_ok h
        obtain ⟨element, helement, hroom⟩ := exists_of_bind_eq_ok h
        exact .array htype hlength hcount hbase helement hroom
    · obtain ⟨id, hid, h⟩ := exists_of_bind_eq_ok h
      split at h
      · cases h
      · rename_i referenced hreferenced
        -- a name is followed to its definition, and the kind of the definition decides
        have hnames : Names definitions typeName referenced := ⟨htype, id, hid, hreferenced⟩
        obtain ⟨kind, hkind, h⟩ := exists_of_bind_eq_ok h
        split at h
        · obtain rfl := Except.ok.inj h
          exact .contract hnames hkind
        · obtain rfl := Except.ok.inj h
          exact .enumeration hnames hkind
        · obtain ⟨underlying, hunderlying, hroom⟩ := exists_of_bind_eq_ok h
          exact .valueType hnames hkind hunderlying hroom
        · obtain ⟨members, hmembers, h⟩ := exists_of_bind_eq_ok h
          obtain ⟨allocation, hlayout, h⟩ := exists_of_bind_eq_ok h
          obtain rfl := Except.ok.inj h
          exact .struct hnames hkind hmembers hlayout
        · cases h
    · obtain rfl := Except.ok.inj h
      exact .function htype
    · cases h
  · intro h
    cases h with
    | elementary h hname hbytes =>
      rw [extentWithin, bind_of_eq_ok h]
      dsimp only
      rw [hname]
      dsimp only
      rw [hbytes]
      rfl
    | mapping h =>
      rw [extentWithin, bind_of_eq_ok h]
      rfl
    | dynamic h hlength =>
      rw [extentWithin, bind_of_eq_ok h]
      dsimp only
      rw [hlength]
      rfl
    | array h hlength hcount hbase helement hroom =>
      rw [extentWithin, bind_of_eq_ok h]
      simp only
      rw [bind_of_eq_ok hcount, bind_of_eq_ok hbase, bind_of_eq_ok helement, hroom]
    | contract h hkind => exact extentWithin_of_names h hkind
    | enumeration h hkind => exact extentWithin_of_names h hkind
    | valueType h hkind hunderlying hroom =>
      rw [extentWithin_of_names h hkind, ← hroom]
      exact bind_of_eq_ok hunderlying _
    | struct h hkind hmembers hlayout =>
      rw [extentWithin_of_names h hkind]
      exact (bind_of_eq_ok hmembers _).trans (bind_of_eq_ok hlayout _)
    | function h =>
      rw [extentWithin, bind_of_eq_ok h]
      rfl

/-! ### The types that a type uses -/

/-- The extent of a type depends on that of another one. -/
inductive Uses (definitions : Definitions) (typeName : Json) : Json → Prop
  | element {base : Json} (h : HasType typeName "ArrayTypeName")
      (hlength : (typeName.get? "length").getD .null ≠ .null)
      (hbase : typeName.require "baseType" = .ok base) : Uses definitions typeName base
  | underlying {referenced underlying : Json} (h : Names definitions typeName referenced)
      (hkind : HasType referenced "UserDefinedValueTypeDefinition")
      (hunderlying : referenced.require "underlyingType" = .ok underlying) :
      Uses definitions typeName underlying
  | member {referenced member used : Json} {members : List Json}
      (h : Names definitions typeName referenced) (hkind : HasType referenced "StructDefinition")
      (hmembers : membersOf referenced = .ok members) (hmember : member ∈ members)
      (hused : declaredType definitions member = .ok used) (hne : used ≠ .null) :
      Uses definitions typeName used

/-- A layout depends on the extents of the types of its declarations alone. -/
theorem EntersAs.mono {entries : List (NodeId × Extent)} {declarations : List Json}
    (h : List.Forall₂ (EntersAs definitions inner) declarations entries)
    (hfinds : ∀ declared ∈ declarations, ∀ used, declaredType definitions declared = .ok used →
      used ≠ .null → Finds (inner used) (outer used)) :
    List.Forall₂ (EntersAs definitions outer) declarations entries := by
  have hboth := (List.forall₂_and_left declarations entries).mpr ⟨hfinds, h⟩
  refine hboth.imp fun declared entry => ?_
  rintro ⟨hfinds, hid, used, hused, hne, hroom⟩
  exact ⟨hid, used, hused, hne, hfinds used hused hne _ hroom⟩

/-- The extent of a type depends on those of the types that it uses alone. -/
theorem Measured.mono (h : Measured definitions inner typeName room)
    (hfinds : ∀ used, Uses definitions typeName used → Finds (inner used) (outer used)) :
    Measured definitions outer typeName room := by
  cases h with
  | elementary h hname hbytes => exact .elementary h hname hbytes
  | mapping h => exact .mapping h
  | dynamic h hlength => exact .dynamic h hlength
  | array h hlength hcount hbase helement hroom =>
    exact .array h hlength hcount hbase (hfinds _ (.element h hlength hbase) _ helement) hroom
  | contract h hkind => exact .contract h hkind
  | enumeration h hkind => exact .enumeration h hkind
  | valueType h hkind hunderlying hroom =>
    exact .valueType h hkind hunderlying (hfinds _ (.underlying h hkind hunderlying) _ hroom)
  | struct h hkind hmembers hlayout =>
    obtain ⟨entries, hentries, rfl⟩ := layOut_eq_ok_iff.mp hlayout
    refine .struct h hkind hmembers (layOut_eq_ok_iff.mpr ⟨entries, ?_, rfl⟩)
    exact EntersAs.mono hentries fun member hmember used hused hne =>
      hfinds used (.member h hkind hmembers hmember hused hne)
  | function h => exact .function h

/-- A type that may refer one deeper has the extent that was found before. -/
theorem extentWithin_succ (depth : Nat) :
    ∀ typeName, Finds (extentWithin definitions depth typeName)
      (extentWithin definitions (depth + 1) typeName) := by
  induction depth with
  | zero =>
    rintro typeName extent ⟨⟩
  | succ depth ih =>
    intro typeName room h
    exact extentWithin_succ_iff.mpr ((extentWithin_succ_iff.mp h).mono fun used _ => ih used)

theorem extentWithin_mono {depth depth' : Nat} (h : depth ≤ depth') (typeName : Json) :
    Finds (extentWithin definitions depth typeName)
      (extentWithin definitions depth' typeName) := by
  induction h with
  | refl => exact Finds.refl _
  | step _ ih => exact ih.trans (extentWithin_succ _ typeName)

/-- A type that is found an extent one deeper, and not before, uses another one of which the same
holds. -/
theorem exists_uses_of_deeper (h : extentWithin definitions (depth + 1) typeName = .ok room)
    (hnot : ∀ room, extentWithin definitions depth typeName ≠ .ok room) :
    depth = 0 ∨ ∃ earlier used room, depth = earlier + 1 ∧ Uses definitions typeName used ∧
      extentWithin definitions depth used = .ok room ∧
      ∀ room, extentWithin definitions earlier used ≠ .ok room := by
  cases depth with
  | zero => exact .inl rfl
  | succ earlier =>
    right
    by_contra hnone
    -- otherwise all types that it uses have their extents before, and so it has its own
    refine hnot room (extentWithin_succ_iff.mpr ((extentWithin_succ_iff.mp h).mono ?_))
    intro used huses room hroom
    by_contra hdiffers
    refine hnone ⟨earlier, used, room, rfl, huses, hroom, fun room' hroom' => hdiffers ?_⟩
    have hsame := (extentWithin_succ earlier used room' hroom').symm.trans hroom
    rw [hroom', hsame]

/-- So there are as many types that use one another, and all differ: each is found its extent at
another depth. -/
theorem exists_chain {space : List Json}
    (hclosed : ∀ typeName ∈ space, ∀ used, Uses definitions typeName used → used ∈ space) :
    ∀ depth, ∀ typeName ∈ space, ∀ room, extentWithin definitions (depth + 1) typeName = .ok room →
      (∀ room, extentWithin definitions depth typeName ≠ .ok room) →
      ∃ chain : List Json, chain.length = depth + 1 ∧ chain.Nodup ∧ chain ⊆ space ∧
        ∀ used ∈ chain, ∃ room, extentWithin definitions (depth + 1) used = .ok room := by
  intro depth
  induction depth with
  | zero =>
    intro typeName hmem room h hnot
    refine ⟨[typeName], rfl, List.nodup_singleton _, List.cons_subset.mpr ⟨hmem, nofun⟩,
      fun used hused => ?_⟩
    obtain rfl := List.mem_singleton.mp hused
    exact ⟨room, h⟩
  | succ depth ih =>
    intro typeName hmem room h hnot
    obtain hzero | ⟨earlier, used, room', heq, huses, hroom', hnot'⟩ := exists_uses_of_deeper h hnot
    · cases hzero
    · obtain rfl := Nat.succ.inj heq
      obtain ⟨chain, hlength, hnodup, hsub, hfound⟩ :=
        ih used (hclosed typeName hmem used huses) room' hroom' hnot'
      -- the others have their extents at a depth at which this type has none
      refine ⟨typeName :: chain, congrArg Nat.succ hlength,
        List.nodup_cons.mpr ⟨fun hin => ?_, hnodup⟩,
        List.cons_subset.mpr ⟨hmem, hsub⟩, fun other hother => ?_⟩
      · obtain ⟨room, hroom⟩ := hfound typeName hin
        exact hnot room hroom
      · obtain rfl | hother := List.mem_cons.mp hother
        · exact ⟨room, h⟩
        · obtain ⟨room, hroom⟩ := hfound other hother
          exact ⟨room, extentWithin_succ _ other room hroom⟩

/-- Among finitely many types no more depth is needed than there are types. -/
theorem extentWithin_length {space : List Json}
    (hclosed : ∀ typeName ∈ space, ∀ used, Uses definitions typeName used → used ∈ space)
    (hmem : typeName ∈ space) (h : extentWithin definitions depth typeName = .ok room) :
    extentWithin definitions space.length typeName = .ok room := by
  induction depth with
  | zero => cases h
  | succ depth ih =>
    by_cases hnot : ∀ room, extentWithin definitions depth typeName ≠ .ok room
    · -- all of the chain are among the types, so these are enough
      obtain ⟨chain, hlength, hnodup, hsub, -⟩ :=
        exists_chain hclosed depth typeName hmem room h hnot
      have hle := (List.subperm_of_subset hnodup hsub).length_le
      exact extentWithin_mono (hlength ▸ hle) typeName room h
    · -- it was found before
      obtain ⟨room', hroom'⟩ := not_forall_not.mp hnot
      obtain rfl := Except.ok.inj ((extentWithin_succ depth typeName room' hroom').symm.trans h)
      exact ih hroom'

/-! ### The limit of the depth -/

theorem values_self (value : Json) : value ∈ values value := by
  cases value <;> simp [values]

theorem valuesOfItems_append (xs ys : List Json) :
    valuesOfItems (xs ++ ys) = valuesOfItems xs ++ valuesOfItems ys := by
  induction xs with
  | nil => rfl
  | cons x xs ih => rw [List.cons_append, valuesOfItems, valuesOfItems, ih, List.append_assoc]

theorem values_subset_of_mem {value : Json} {items : List Json} (h : value ∈ items) :
    values value ⊆ valuesOfItems items := by
  induction items with
  | nil => cases h
  | cons item items ih =>
    rw [valuesOfItems]
    obtain rfl | h := List.mem_cons.mp h
    · exact List.subset_append_left _ _
    · exact List.Subset.trans (ih h) (List.subset_append_right _ _)

theorem values_subset_of_member {name : String} {value : Json} {members : List (String × Json)}
    (h : Json.member? name members = some value) : values value ⊆ valuesOfMembers members := by
  induction members with
  | nil => cases h
  | cons member members ih =>
    obtain ⟨key, first⟩ := member
    rw [Json.member?] at h
    rw [valuesOfMembers]
    split at h
    · obtain rfl := Option.some.inj h
      exact List.subset_append_left _ _
    · exact List.Subset.trans (ih h) (List.subset_append_right _ _)

/-- What stands in an item stands in the array. -/
theorem values_subset_arr {value : Json} {items : List Json} (h : value ∈ items) :
    values value ⊆ values (.arr items) := by
  rw [values]
  exact List.Subset.trans (values_subset_of_mem h) (List.subset_cons_self _ _)

/-- What stands in a member stands in the object. -/
theorem values_subset_obj {name : String} {value : Json} {members : List (String × Json)}
    (h : Json.member? name members = some value) : values value ⊆ values (.obj members) := by
  rw [values]
  exact List.Subset.trans (values_subset_of_member h) (List.subset_cons_self _ _)

mutual

/-- The values in a value in a value are values in that. -/
theorem values_subset : ∀ outer : Json, ∀ value ∈ values outer, values value ⊆ values outer
  | .arr items, value, h => by
    rw [values] at h ⊢
    obtain rfl | h := List.mem_cons.mp h
    · rw [values]
      exact List.Subset.refl _
    · exact List.Subset.trans (values_subset_items items value h) (List.subset_cons_self _ _)
  | .obj members, value, h => by
    rw [values] at h ⊢
    obtain rfl | h := List.mem_cons.mp h
    · rw [values]
      exact List.Subset.refl _
    · exact List.Subset.trans (values_subset_members members value h) (List.subset_cons_self _ _)
  | .null, value, h | .bool _, value, h | .int _, value, h | .fraction _, value, h
  | .str _, value, h => by
    obtain rfl := List.mem_singleton.mp h
    exact List.Subset.refl _

theorem values_subset_items : ∀ items : List Json, ∀ value ∈ valuesOfItems items,
    values value ⊆ valuesOfItems items
  | item :: rest, value, h => by
    rw [valuesOfItems] at h ⊢
    obtain h | h := List.mem_append.mp h
    · exact List.Subset.trans (values_subset item value h) (List.subset_append_left _ _)
    · exact List.Subset.trans (values_subset_items rest value h) (List.subset_append_right _ _)

theorem values_subset_members : ∀ members : List (String × Json),
    ∀ value ∈ valuesOfMembers members, values value ⊆ valuesOfMembers members
  | (_, first) :: rest, value, h => by
    rw [valuesOfMembers] at h ⊢
    obtain h | h := List.mem_append.mp h
    · exact List.Subset.trans (values_subset first value h) (List.subset_append_left _ _)
    · exact List.Subset.trans (values_subset_members rest value h) (List.subset_append_right _ _)

end

theorem mem_values_of_require {name : String} {value found : Json}
    (h : value.require name = .ok found) : found ∈ values value := by
  cases value with
  | obj members =>
    rw [Json.require] at h
    cases hmember : Json.member? name members with
    | none =>
      rw [hmember] at h
      cases h
    | some member =>
      rw [hmember] at h
      obtain rfl := Except.ok.inj h
      exact values_subset_obj hmember (values_self member)
  | _ => cases h

theorem mem_values_of_lookupOrNull {name : String} {value found : Json}
    (h : value.lookupOrNull name = .ok found) (hne : found ≠ .null) : found ∈ values value := by
  obtain ⟨looked, hlooked, rfl⟩ := exists_of_map_eq_ok h
  cases value with
  | obj members =>
    obtain rfl := Except.ok.inj hlooked
    cases hmember : Json.member? name members with
    | none =>
      rw [hmember] at hne
      exact absurd rfl hne
    | some member => exact values_subset_obj hmember (values_self member)
  | _ => cases hlooked

/-- A member of a structure that has an identity stands in it: it is no character and no name. -/
theorem mem_values_of_membersOf {members : List Json} {member : Json} {id : NodeId}
    (h : membersOf referenced = .ok members) (hmember : member ∈ members)
    (hid : declaredId member = .ok id) : member ∈ values referenced := by
  obtain ⟨idValue, hvalue, -⟩ := exists_of_bind_eq_ok hid
  rw [membersOf] at h
  generalize hlisted : (referenced.get? "members").getD (.arr []) = listed at h
  cases listed with
  | arr items =>
    obtain rfl := Except.ok.inj h
    cases referenced with
    | obj fields =>
      have hlisted : (Json.member? "members" fields).getD (.arr []) = .arr items := hlisted
      cases hfield : Json.member? "members" fields with
      | none =>
        rw [hfield] at hlisted
        obtain rfl := Json.arr.inj hlisted
        cases hmember
      | some field =>
        rw [hfield] at hlisted
        obtain rfl : field = .arr items := hlisted
        exact values_subset_obj hfield (values_subset_arr hmember (values_self member))
    | _ =>
      obtain rfl := Json.arr.inj hlisted
      cases hmember
  | str text =>
    -- the members are characters, which have no identity
    obtain rfl := Except.ok.inj h
    obtain ⟨c, -, rfl⟩ := List.mem_map.mp hmember
    cases hvalue
  | obj fields =>
    obtain rfl := Except.ok.inj h
    obtain ⟨field, -, rfl⟩ := List.mem_map.mp hmember
    cases hvalue
  | _ => cases h

/-- A definition stands among the values that the limit counts. -/
theorem values_subset_of_definition {declarations : List Json} {id : NodeId}
    (h : valueOf? id definitions = some referenced) :
    values referenced ⊆ valuesOfItems (declarations ++ definitions.map Prod.snd) := by
  refine values_subset_of_mem (List.mem_append_right _ ?_)
  exact List.mem_map.mpr ⟨(id, referenced), SyntaxTree.mem_of_valueOf? h, rfl⟩

theorem Names.exists_definition (h : Names definitions typeName referenced) :
    ∃ id, valueOf? id definitions = some referenced := by
  obtain ⟨-, id, -, hid⟩ := h
  rw [definition?] at hid
  split at hid
  · cases hid
  · exact ⟨id, hid⟩

/-- The type of a declaration stands in it, or among the definitions. -/
theorem mem_of_declaredType {declarations : List Json}
    (h : declaredType definitions declared = .ok used)
    (hne : used ≠ .null)
    (hmem : ∀ id, declaredId declared = .ok id →
      values declared ⊆ valuesOfItems (declarations ++ definitions.map Prod.snd)) :
    used ∈ valuesOfItems (declarations ++ definitions.map Prod.snd) := by
  obtain ⟨id, hid, hused⟩ := exists_of_bind_eq_ok h
  have hmember := mem_values_of_lookupOrNull hused hne
  cases hdefined : valueOf? id definitions with
  | none =>
    rw [hdefined] at hmember
    exact hmem id hid hmember
  | some definition =>
    rw [hdefined] at hmember
    exact values_subset_of_definition hdefined hmember

/-- The types that a type uses stand in it, or among the definitions. -/
theorem Uses.mem {declarations : List Json} (h : Uses definitions typeName used)
    (hmem : typeName ∈ valuesOfItems (declarations ++ definitions.map Prod.snd)) :
    used ∈ valuesOfItems (declarations ++ definitions.map Prod.snd) := by
  cases h with
  | element _ _ hbase => exact values_subset_items _ _ hmem (mem_values_of_require hbase)
  | underlying h _ hunderlying =>
    obtain ⟨id, hid⟩ := h.exists_definition
    exact values_subset_of_definition hid (mem_values_of_require hunderlying)
  | member h _ hmembers hmember hused hne =>
    obtain ⟨id, hid⟩ := h.exists_definition
    refine mem_of_declaredType hused hne fun own hown => ?_
    have hinside := mem_values_of_membersOf hmembers hmember hown
    exact List.Subset.trans (values_subset _ _ hinside) (values_subset_of_definition hid)

/-- **The limit cuts no type off**: what is found at some depth is found within the limit. -/
theorem extent_eq_of_extentWithin (h : extentWithin definitions depth typeName = .ok room) :
    Storage.extent definitions typeName = .ok room := by
  have hmem : typeName ∈ valuesOfItems ([typeName] ++ definitions.map Prod.snd) :=
    values_subset_of_mem List.mem_cons_self (values_self typeName)
  exact extentWithin_length (fun _ hmem _ huses => huses.mem hmem) hmem h

/-- So it is with layouts. -/
theorem allocate_eq_of_layOut {declarations : List Json} {allocation : Allocation}
    (h : layOut definitions (extentWithin definitions depth) declarations = .ok allocation) :
    allocate definitions declarations = .ok allocation := by
  obtain ⟨entries, hentries, rfl⟩ := layOut_eq_ok_iff.mp h
  refine layOut_eq_ok_iff.mpr ⟨entries, EntersAs.mono hentries ?_, rfl⟩
  intro declared hdeclared used hused hne room hroom
  refine extentWithin_length (fun _ hmem _ huses => huses.mem hmem) ?_ hroom
  exact mem_of_declaredType hused hne fun _ _ =>
    values_subset_of_mem (List.mem_append_left _ hdeclared)

end TraceDebugger.Storage
