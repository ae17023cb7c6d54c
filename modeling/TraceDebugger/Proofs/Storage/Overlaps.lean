/-
Which variables begin at the same byte.

A layout counts an array whose length is written as an expression, and not as a value, as one of no
elements.  Such an array takes no room, and neither does what is made of such arrays alone; the
variable that is declared next is put where it stands.

* `extent_eq_slots_zero_iff` — the types that are given no room are the hollow ones;
* `Packed.start_eq_iff` — variables begin at the same byte if none takes room from the one up to the
  other;
* `starts_shared_iff` — which variables of types that a compiler accepts have one slot and offset;
* `quota_starts_shared` — some that do.
-/
import TraceDebugger.Proofs.Storage.Arrays

namespace TraceDebugger.Storage

variable {definitions : Definitions} {typeName used base referenced : Json} {room : Extent}
  {depth : Nat} {laid : List Variable}

/-! ### Types that take no room -/

/-- The length of an array is given by an expression that has no value written in it, such as the
name of a constant. -/
structure LengthUnwritten (typeName : Json) : Prop where
  kind : HasType typeName "ArrayTypeName"
  length_ne_null : (typeName.get? "length").getD .null ≠ .null
  no_value : ((typeName.get? "length").getD .null).lookup "value" = .ok none

/-- A type is made of nothing but arrays of unwritten lengths. -/
inductive Hollow (definitions : Definitions) : Json → Prop
  | unwritten {typeName : Json} (h : LengthUnwritten typeName) : Hollow definitions typeName
  | made {typeName used : Json} (huses : Uses definitions typeName used)
      (hall : ∀ used, Uses definitions typeName used → Hollow definitions used) :
      Hollow definitions typeName

/-- What a compiler asks of a type: an elementary one has some bytes, and no more than a slot, no
array is written to have no elements, and no structure is without members. -/
structure Accepted (definitions : Definitions) (typeName : Json) : Prop where
  size : SizeFits typeName
  count : ∀ count value, HasType typeName "ArrayTypeName" →
    ((typeName.get? "length").getD .null).lookup "value" = .ok (some value) →
    arrayCount ((typeName.get? "length").getD .null) = .ok count → 1 ≤ count
  members : ∀ referenced, Names definitions typeName referenced →
    HasType referenced "StructDefinition" → membersOf referenced ≠ .ok []

theorem Throughout.mono {P Q : Json → Prop} (h : Throughout definitions P typeName)
    (himp : ∀ used, P used → Q used) : Throughout definitions Q typeName :=
  fun used hused => himp used (h used hused)

/-- A length without a value counts as none. -/
theorem arrayCount_eq_ok {length : Json} {count : Int} (h : arrayCount length = .ok count) :
    length.lookup "value" = .ok none ∧ count = 0 ∨
      ∃ value, length.lookup "value" = .ok (some value) := by
  obtain ⟨value, hvalue, h⟩ := exists_of_bind_eq_ok h
  cases value with
  | none => exact .inl ⟨hvalue, (Except.ok.inj h).symm⟩
  | some value => exact .inr ⟨value, hvalue⟩

theorem Accepted.countFits (h : Accepted definitions typeName) : CountFits typeName := by
  intro count hkind _ hcount
  obtain ⟨-, rfl⟩ | ⟨value, hvalue⟩ := arrayCount_eq_ok hcount
  · exact le_rfl
  · exact Int.one_nonneg.trans (h.count count value hkind hvalue hcount)

/-- Types that a compiler accepts have room in the storage. -/
theorem fits_of_accepted (haccepted : Throughout definitions (Accepted definitions) typeName)
    (h : extentWithin definitions depth typeName = .ok room) : room.Fits :=
  extent_fits (haccepted.mono fun _ => Accepted.size)
    (haccepted.mono fun _ => Accepted.countFits) h

/-! ### The types that a kind of type uses -/

/-- An array uses the type of its elements. -/
theorem uses_array_iff (h : HasType typeName "ArrayTypeName")
    (hlength : (typeName.get? "length").getD .null ≠ .null)
    (hbase : typeName.require "baseType" = .ok base) :
    Uses definitions typeName used ↔ used = base := by
  constructor
  · rintro (⟨-, -, hused⟩ | ⟨⟨h', -⟩, -, -⟩ | ⟨⟨h', -⟩, -, -, -, -, -⟩)
    · exact Except.ok.inj (hused.symm.trans hbase)
    · exact absurd (h.unique h') (by decide)
    · exact absurd (h.unique h') (by decide)
  · rintro rfl
    exact .element h hlength hbase

/-- A name for a value type uses the one that it stands for. -/
theorem uses_valueType_iff {underlying : Json} (h : Names definitions typeName referenced)
    (hkind : HasType referenced "UserDefinedValueTypeDefinition")
    (hunderlying : referenced.require "underlyingType" = .ok underlying) :
    Uses definitions typeName used ↔ used = underlying := by
  constructor
  · rintro (⟨h', -, -⟩ | ⟨h', -, hused⟩ | ⟨h', hkind', -, -, -, -⟩)
    · exact absurd (h.1.unique h') (by decide)
    · obtain rfl := h.unique h'
      exact Except.ok.inj (hused.symm.trans hunderlying)
    · obtain rfl := h.unique h'
      exact absurd (hkind.unique hkind') (by decide)
  · rintro rfl
    exact .underlying h hkind hunderlying

/-- A structure uses the types of its members. -/
theorem uses_struct_iff {members : List Json} (h : Names definitions typeName referenced)
    (hkind : HasType referenced "StructDefinition")
    (hmembers : membersOf referenced = .ok members) :
    Uses definitions typeName used ↔
      ∃ member ∈ members, declaredType definitions member = .ok used ∧ used ≠ .null := by
  constructor
  · rintro (⟨h', -, -⟩ | ⟨h', hkind', -⟩ | ⟨h', -, hmembers', hmember, hused, hne⟩)
    · exact absurd (h.1.unique h') (by decide)
    · obtain rfl := h.unique h'
      exact absurd (hkind.unique hkind') (by decide)
    · obtain rfl := h.unique h'
      obtain rfl := Except.ok.inj (hmembers'.symm.trans hmembers)
      exact ⟨_, hmember, hused, hne⟩
  · rintro ⟨member, hmember, hused, hne⟩
    exact .member h hkind hmembers hmember hused hne

/-- The types that use others: arrays of some length, and names for value types and structures. -/
def Compound (definitions : Definitions) (typeName : Json) : Prop :=
  HasType typeName "ArrayTypeName" ∧ (typeName.get? "length").getD .null ≠ .null ∨
    ∃ referenced, Names definitions typeName referenced ∧
      (HasType referenced "UserDefinedValueTypeDefinition" ∨ HasType referenced "StructDefinition")

theorem Uses.compound (h : Uses definitions typeName used) : Compound definitions typeName := by
  cases h with
  | element h hlength => exact .inl ⟨h, hlength⟩
  | underlying h hkind => exact .inr ⟨_, h, .inl hkind⟩
  | member h hkind => exact .inr ⟨_, h, .inr hkind⟩

theorem Hollow.compound (h : Hollow definitions typeName) : Compound definitions typeName := by
  cases h with
  | unwritten h => exact .inl ⟨h.kind, h.length_ne_null⟩
  | made huses => exact huses.compound

/-- No other types are hollow. -/
theorem not_hollow_of_hasType {kind : String} (h : HasType typeName kind)
    (harray : kind ≠ "ArrayTypeName") (hnamed : kind ≠ "UserDefinedTypeName") :
    ¬ Hollow definitions typeName := by
  intro hhollow
  obtain ⟨harray', -⟩ | ⟨referenced, hnames, -⟩ := hhollow.compound
  · exact harray (h.unique harray')
  · exact hnamed (h.unique hnames.1)

theorem not_hollow_of_names {kind : String} (h : Names definitions typeName referenced)
    (hkind : HasType referenced kind) (hvalue : kind ≠ "UserDefinedValueTypeDefinition")
    (hstruct : kind ≠ "StructDefinition") : ¬ Hollow definitions typeName := by
  intro hhollow
  obtain ⟨harray, -⟩ | ⟨referenced', hnames, hkind'⟩ := hhollow.compound
  · exact absurd (h.1.unique harray) (by decide)
  · obtain rfl := h.unique hnames
    exact hkind'.elim (hvalue ∘ hkind.unique) (hstruct ∘ hkind.unique)

/-- A name for a type has no length. -/
theorem Names.not_lengthUnwritten (h : Names definitions typeName referenced) :
    ¬ LengthUnwritten typeName := fun hunwritten =>
  absurd (h.1.unique hunwritten.kind) (by decide)

/-- A type whose length is not unwritten is hollow if it uses hollow types, and no others. -/
theorem hollow_iff (h : ¬ LengthUnwritten typeName) : Hollow definitions typeName ↔
    (∃ used, Uses definitions typeName used) ∧
      ∀ used, Uses definitions typeName used → Hollow definitions used := by
  constructor
  · rintro (hunwritten | ⟨huses, hall⟩)
    · exact absurd hunwritten h
    · exact ⟨⟨_, huses⟩, hall⟩
  · rintro ⟨⟨used, huses⟩, hall⟩
    exact .made huses hall

/-- A type that uses one other type is as hollow as that. -/
theorem hollow_iff_of_uses (h : ¬ LengthUnwritten typeName)
    (huses : ∀ used, Uses definitions typeName used ↔ used = base) :
    Hollow definitions typeName ↔ Hollow definitions base := by
  simp only [hollow_iff h, huses, exists_eq, true_and, forall_eq]

/-- There is an array of unwritten length in a hollow type. -/
theorem Hollow.exists_unwritten (h : Hollow definitions typeName) :
    ∃ used, Relation.ReflTransGen (Uses definitions) typeName used ∧ LengthUnwritten used := by
  induction h with
  | unwritten h => exact ⟨_, .refl, h⟩
  | made huses _ ih =>
    obtain ⟨used, hreach, hunwritten⟩ := ih _ huses
    exact ⟨used, .head huses hreach, hunwritten⟩

/-! ### The extents of hollow types -/

/-- An array takes no room if it has no elements, or if these take none. -/
theorem arrayExtent_eq_slots_zero_iff {count : Int} {element : Extent}
    (h : arrayExtent count element = .ok room) (hcount : 0 ≤ count) (hfits : element.Fits) :
    room = .slots 0 ↔ count = 0 ∨ element = .slots 0 := by
  cases element with
  | slots each =>
    obtain rfl := Except.ok.inj h
    simp only [Extent.slots.injEq, Int.mul_eq_zero]
  | packed bytes =>
    have hper := one_le_perSlot hfits.1 hfits.2
    rw [arrayExtent, if_neg (by have := hfits.1; omega)] at h
    obtain rfl := Except.ok.inj h
    rw [Int.fdiv_eq_ediv_of_nonneg _ (by omega)]
    simp only [Extent.slots.injEq, reduceCtorEq, or_false, Int.neg_eq_zero]
    rw [Int.ediv_eq_iff_of_pos (by omega)]
    omega

/-- A variable that takes no byte takes no slots. -/
theorem Seated.start_eq_stop_iff {v : Variable} (h : Seated v) :
    v.place.start = v.place.stop ↔ v.extent = .slots 0 := by
  rw [Place.stop]
  cases h with
  | inside hextent hsize => simp only [hextent, reduceCtorEq, iff_false]; omega
  | slots hextent _ _ hsize =>
    rw [hextent, hsize, slotBytes]
    simp only [Extent.slots.injEq]
    omega

/-- Variables are laid out under their identities and with their extents. -/
theorem Cursor.map_laid {entries : List (NodeId × Extent)} (cursor : Cursor) :
    (cursor.laid entries).map (fun v => (v.id, v.extent)) = entries := by
  induction entries generalizing cursor with
  | nil => rfl
  | cons entry entries ih => rw [Cursor.laid, List.map_cons, ih]

/-- A layout uses no slots if none of its variables takes room. -/
theorem slotsUsed_eq_zero_iff {entries : List (NodeId × Extent)}
    (hfits : ∀ entry ∈ entries, entry.2.Fits) :
    (Cursor.placeAll {} entries).finish.slotsUsed = 0 ↔ ∀ entry ∈ entries, entry.2 = .slots 0 := by
  constructor
  · intro hnone
    obtain ⟨⟨-, hholds⟩, -⟩ := isLeast_slotsUsed hfits
    rw [← @Cursor.map_laid entries {}]
    simp only [List.forall_mem_map]
    intro v hv
    have hseated := (packed_laid hfits).seated v hv
    refine hseated.start_eq_stop_iff.mp (hseated.start_le_stop.antisymm ?_)
    -- else its first byte would be in a slot
    by_contra hlt
    have hbyte := hholds v hv v.place.start ⟨le_rfl, by omega⟩
    rw [hnone] at hbyte
    omega
  · intro hall
    obtain ⟨hslot, hoffset⟩ := @placeAll_slots entries {} 0 hall rfl
    rw [Cursor.finish, if_pos hoffset, hslot]
    simp

/-- A structure takes no slots if all of its members are hollow, once this is known of them. -/
theorem struct_slotsUsed_eq_zero_iff {members : List Json} {entries : List (NodeId × Extent)}
    (h : Names definitions typeName referenced) (hkind : HasType referenced "StructDefinition")
    (hmembers : membersOf referenced = .ok members)
    (hentries : List.Forall₂ (EntersAs definitions (extentWithin definitions depth)) members entries)
    (haccepted : Throughout definitions (Accepted definitions) typeName)
    (hhollow : ∀ used room, extentWithin definitions depth used = .ok room →
      Throughout definitions (Accepted definitions) used →
        (room = .slots 0 ↔ Hollow definitions used)) :
    (Cursor.placeAll {} entries).finish.slotsUsed = 0 ↔ Hollow definitions typeName := by
  have huses : ∀ used, Uses definitions typeName used ↔
      ∃ member ∈ members, declaredType definitions member = .ok used ∧ used ≠ .null :=
    fun used => uses_struct_iff h hkind hmembers
  have hused : ∀ member ∈ members, ∀ used, declaredType definitions member = .ok used →
      used ≠ .null → Throughout definitions (Accepted definitions) used :=
    fun member hmember used htype hne =>
      haccepted.of_uses ((huses used).mpr ⟨member, hmember, htype, hne⟩)
  have hroom : ∀ entry ∈ entries, entry.2.Fits := by
    intro entry hentry
    obtain ⟨member, hmember, -, used, htype, hne, hroom⟩ := exists_of_forall₂ hentries hentry
    exact fits_of_accepted (hused member hmember used htype hne) hroom
  rw [slotsUsed_eq_zero_iff hroom, hollow_iff h.not_lengthUnwritten]
  simp only [huses]
  constructor
  · intro hnone
    refine ⟨?_, ?_⟩
    · -- there is a member, which is of some type
      cases hentries with
      | nil => exact absurd hmembers (haccepted.self.members referenced h hkind)
      | cons hentry =>
        obtain ⟨-, used, htype, hne, -⟩ := hentry
        exact ⟨used, _, List.mem_cons_self, htype, hne⟩
    · rintro used ⟨member, hmember, htype, hne⟩
      obtain ⟨entry, hentry, -, used', htype', -, hroom⟩ :=
        exists_of_forall₂ hentries.flip hmember
      obtain rfl := Except.ok.inj (htype'.symm.trans htype)
      exact (hhollow _ entry.2 hroom (hused member hmember _ htype hne)).mp (hnone entry hentry)
  · rintro ⟨-, hall⟩ entry hentry
    obtain ⟨member, hmember, -, used, htype, hne, hroom⟩ := exists_of_forall₂ hentries hentry
    exact (hhollow used entry.2 hroom (hused member hmember used htype hne)).mpr
      (hall used ⟨member, hmember, htype, hne⟩)

/-- **The types that are given no room are the hollow ones.** -/
theorem extent_eq_slots_zero_iff (h : extentWithin definitions depth typeName = .ok room)
    (haccepted : Throughout definitions (Accepted definitions) typeName) :
    room = .slots 0 ↔ Hollow definitions typeName := by
  -- on how deep types are followed; the extent of an inner type is found one level below
  induction depth generalizing typeName room with
  | zero => cases h
  | succ depth ih =>
    have hmeasured := extentWithin_succ_iff.mp h
    clear h
    cases hmeasured with
    | elementary h | function h =>
      exact iff_of_false nofun (not_hollow_of_hasType h (by decide) (by decide))
    | mapping h =>
      exact iff_of_false (by decide) (not_hollow_of_hasType h (by decide) (by decide))
    | dynamic h hlength =>
      refine iff_of_false (by decide) fun hhollow => ?_
      obtain ⟨-, hne⟩ | ⟨referenced, hnames, -⟩ := hhollow.compound
      · exact hne hlength
      · exact absurd (h.unique hnames.1) (by decide)
    | contract h hkind | enumeration h hkind =>
      exact iff_of_false nofun (not_hollow_of_names h hkind (by decide) (by decide))
    | @array base count element _ h hlength hcount hbase helement hroom =>
      have huses : Uses definitions typeName base := .element h hlength hbase
      have hinner := haccepted.of_uses huses
      rw [arrayExtent_eq_slots_zero_iff hroom (haccepted.self.countFits _ h hlength hcount)
        (fits_of_accepted hinner helement), ih helement hinner]
      -- a length without a value counts as none, whatever the element is
      obtain ⟨hnone, rfl⟩ | ⟨value, hvalue⟩ := arrayCount_eq_ok hcount
      · exact iff_of_true (.inl rfl) (.unwritten ⟨h, hlength, hnone⟩)
      · have hsome := haccepted.self.count count value h hvalue hcount
        have hwritten : ¬ LengthUnwritten typeName := fun hunwritten => by
          cases hvalue.symm.trans hunwritten.no_value
        rw [hollow_iff_of_uses hwritten fun used => uses_array_iff h hlength hbase]
        exact or_iff_right (by omega)
    | valueType h hkind hunderlying hroom =>
      have huses := Uses.underlying h hkind hunderlying
      rw [hollow_iff_of_uses h.not_lengthUnwritten fun used =>
        uses_valueType_iff h hkind hunderlying]
      exact ih hroom (haccepted.of_uses huses)
    | struct h hkind hmembers hlayout =>
      obtain ⟨entries, hentries, rfl⟩ := layOut_eq_ok_iff.mp hlayout
      rw [Extent.slots.injEq]
      exact struct_slotsUsed_eq_zero_iff h hkind hmembers hentries haccepted fun _ _ => ih

/-! ### Where variables begin -/

/-- A place begins in its slot, so the byte that it begins at tells its slot and its offset. -/
theorem Seated.start_eq_start_iff {first second : Variable} (h : Seated first)
    (h' : Seated second) : first.place.start = second.place.start ↔
      first.place.slot = second.place.slot ∧ first.place.offset = second.place.offset := by
  have hoffset : ∀ {v : Variable}, Seated v → 0 ≤ v.place.offset ∧ v.place.offset < slotBytes := by
    rintro v (⟨-, hsize, hoffset, hroom⟩ | ⟨-, -, hoffset, -⟩)
    · omega
    · rw [hoffset]
      decide
  have hfirst := hoffset h
  have hsecond := hoffset h'
  simp only [Place.start, slotBytes] at *
  omega

/-- What follows whole slots begins where these end. -/
theorem Follows.start_eq_stop {earlier later : Variable} (h : Follows earlier later)
    (hwhole : earlier.extent.Whole) : later.place.start = earlier.place.stop := by
  cases h with
  | beside hearlier | crowded hearlier | whole hearlier => exact absurd hwhole hearlier
  | afterWhole _ _ hstart => exact hstart

namespace Packed

variable {i j : Nat}

/-- None of the variables begins before one that is declared earlier. -/
theorem start_le_start (h : Packed laid) (hij : i ≤ j) (hj : j < laid.length) :
    laid[i].place.start ≤ laid[j].place.start := by
  obtain rfl | hlt := hij.eq_or_lt
  · exact le_rfl
  · exact (h.seated _ (List.getElem_mem _)).start_le_stop.trans
      (List.pairwise_iff_getElem.mp h.ordered i j _ hj hlt)

/-- **Variables begin at the same byte if none takes room from the one up to the other.** -/
theorem start_eq_iff (h : Packed laid) (hij : i ≤ j) (hj : j < laid.length) :
    laid[i].place.start = laid[j].place.start ↔
      ∀ k (_ : i ≤ k) (hk : k < j), laid[k].extent = .slots 0 := by
  constructor
  · intro heq k hik hkj
    have hseated := h.seated laid[k] (List.getElem_mem _)
    refine hseated.start_eq_stop_iff.mp (hseated.start_le_stop.antisymm ?_)
    -- the one between begins and ends where the others do
    calc laid[k].place.stop
      _ ≤ laid[j].place.start := List.pairwise_iff_getElem.mp h.ordered k j _ hj hkj
      _ = laid[i].place.start := heq.symm
      _ ≤ laid[k].place.start := h.start_le_start hik _
  · intro hnone
    induction j, hij using Nat.le_induction with
    | base => rfl
    | succ j hij ih =>
      have hlast := hnone j hij j.lt_succ_self
      have hwhole : laid[j].extent.Whole := hlast ▸ trivial
      calc laid[i].place.start
        _ = laid[j].place.start := ih _ fun k hik hkj => hnone k hik (by omega)
        _ = laid[j].place.stop := (h.seated _ (List.getElem_mem _)).start_eq_stop_iff.mpr hlast
        _ = laid[j + 1].place.start := ((h.follows.getElem j hj).start_eq_stop hwhole).symm

end Packed

/-- A declaration is of a type that is given no room. -/
def DeclaresHollow (definitions : Definitions) (declared : Json) : Prop :=
  ∃ typeName, declaredType definitions declared = .ok typeName ∧ Hollow definitions typeName

/-- Of the variables that are laid out, those of hollow types take no room. -/
theorem LaidOutAs.extent_eq_iff {declared : Json} {v : Variable}
    (h : LaidOutAs definitions declared v)
    (haccepted : ∀ typeName, declaredType definitions declared = .ok typeName →
      Throughout definitions (Accepted definitions) typeName) :
    v.extent = .slots 0 ↔ DeclaresHollow definitions declared := by
  obtain ⟨-, typeName, htype, hroom, -⟩ := h
  rw [extent_eq_slots_zero_iff hroom (haccepted typeName htype)]
  constructor
  · intro hhollow
    exact ⟨typeName, htype, hhollow⟩
  · rintro ⟨typeName', htype', hhollow⟩
    exact Except.ok.inj (htype'.symm.trans htype) ▸ hhollow

/-- Two places begin at the same byte of the same slot. -/
def Place.SharesStart (first second : Place) : Prop :=
  first.slot = second.slot ∧ first.offset = second.offset

/-- Variables of types that a compiler accepts are packed, each as its type tells. -/
theorem exists_packed {declarations : List Json} {ids : List NodeId} {allocation : Allocation}
    (hids : declarations.mapM declaredId = .ok ids) (hdistinct : ids.Nodup)
    (haccepted : ∀ declared ∈ declarations, ∀ typeName,
      declaredType definitions declared = .ok typeName →
        Throughout definitions (Accepted definitions) typeName)
    (h : allocate definitions declarations = .ok allocation) :
    ∃ laid : List Variable, List.Forall₂ (LaidOutAs definitions) declarations laid ∧
      allocation.places = laid.map (fun v => (v.id, v.place)) ∧ laid.map Variable.id = ids ∧
      Packed laid := by
  obtain ⟨entries, hentries, rfl⟩ := layOut_eq_ok_iff.mp h
  have hfits : ∀ entry ∈ entries, entry.2.Fits := by
    intro entry hentry
    obtain ⟨declared, hmem, -, typeName, htype, -, hroom⟩ := exists_of_forall₂ hentries hentry
    exact fits_of_accepted (haccepted declared hmem typeName htype) hroom
  have hlaid := forall₂_laid hentries {}
  have hnames : ids = (Cursor.laid {} entries).map Variable.id := by
    refine Except.ok.inj (hids.symm.trans (mapM_eq_ok_iff.mpr ?_))
    exact List.forall₂_map_right_iff.mpr (hlaid.imp fun _ _ hdeclared => hdeclared.1)
  -- identities that are distinct name the entries, so that the table holds each of them
  have hkeys : entries.map Prod.fst = ids := by
    conv_lhs => rw [← @Cursor.map_laid entries {}, List.map_map]
    exact hnames.symm
  exact ⟨_, hlaid, @Cursor.places_placeAll {} entries (hkeys ▸ hdistinct), hnames.symm,
    packed_laid hfits⟩

/-- **Which variables begin at the same slot and offset.**  Let variables have distinct identities
and types that a compiler accepts.  Once they are laid out, two of them begin at the same place
exactly if all from the one up to the other are of hollow types, those that are made of nothing but
arrays of unwritten lengths; so none do if the lengths of all arrays are written as values. -/
theorem starts_shared_iff {declarations : List Json} {ids : List NodeId} {allocation : Allocation}
    (hids : declarations.mapM declaredId = .ok ids) (hdistinct : ids.Nodup)
    (haccepted : ∀ declared ∈ declarations, ∀ typeName,
      declaredType definitions declared = .ok typeName →
        Throughout definitions (Accepted definitions) typeName)
    (h : allocate definitions declarations = .ok allocation) :
    allocation.places.map Prod.fst = ids ∧
    (∀ (i j : Nat) (first second : NodeId × Place), i < j →
      allocation.places[i]? = some first → allocation.places[j]? = some second →
        (first.2.SharesStart second.2 ↔ ∀ k declared, i ≤ k → k < j →
          declarations[k]? = some declared → DeclaresHollow definitions declared)) ∧
    ((∀ declared ∈ declarations, ∀ typeName, declaredType definitions declared = .ok typeName →
        Throughout definitions (fun used => ¬ LengthUnwritten used) typeName) →
      allocation.places.Pairwise fun first second => ¬ first.2.SharesStart second.2) := by
  obtain ⟨laid, hlaid, hplaces, hnames, hpacked⟩ := exists_packed hids hdistinct haccepted h
  have hshared : ∀ (i j : Nat) (first second : NodeId × Place), i < j →
      allocation.places[i]? = some first → allocation.places[j]? = some second →
        (first.2.SharesStart second.2 ↔ ∀ k declared, i ≤ k → k < j →
          declarations[k]? = some declared → DeclaresHollow definitions declared) := by
    intro i j first second hij hfirst hsecond
    rw [hplaces, List.getElem?_map, Option.map_eq_some_iff] at hfirst hsecond
    obtain ⟨v, hv, rfl⟩ := hfirst
    obtain ⟨w, hw, rfl⟩ := hsecond
    obtain ⟨hi, rfl⟩ := List.getElem?_eq_some_iff.mp hv
    obtain ⟨hj, rfl⟩ := List.getElem?_eq_some_iff.mp hw
    rw [Place.SharesStart, ← (hpacked.seated _ (List.getElem_mem hi)).start_eq_start_iff
      (hpacked.seated _ (List.getElem_mem hj)), hpacked.start_eq_iff hij.le hj]
    -- a variable takes no room if its declaration says so
    have hroom : ∀ k (hk : k < laid.length) declared, declarations[k]? = some declared →
        (laid[k].extent = .slots 0 ↔ DeclaresHollow definitions declared) := by
      intro k hk declared hdeclared
      obtain ⟨hk', rfl⟩ := List.getElem?_eq_some_iff.mp hdeclared
      exact (hlaid.get hk' hk).extent_eq_iff (haccepted _ (List.getElem_mem hk'))
    constructor
    · intro hnone k declared hik hkj hdeclared
      exact (hroom k (by omega) declared hdeclared).mp (hnone k hik hkj)
    · intro hnone k hik hkj
      have hk : k < declarations.length := by
        have := hlaid.length_eq
        omega
      exact (hroom k _ _ (List.getElem?_eq_getElem hk)).mpr
        (hnone k _ hik hkj (List.getElem?_eq_getElem hk))
  refine ⟨?_, hshared, fun hwritten => List.pairwise_iff_getElem.mpr ?_⟩
  · rw [hplaces, List.map_map, ← hnames]
    rfl
  · intro i j hi hj hij hsame
    have hk : i < declarations.length := by
      rwa [hlaid.length_eq, ← List.length_map fun v : Variable => (v.id, v.place), ← hplaces]
    obtain ⟨typeName, htype, hhollow⟩ := (hshared i j _ _ hij (List.getElem?_eq_getElem hi)
      (List.getElem?_eq_getElem hj)).mp hsame i _ le_rfl hij (List.getElem?_eq_getElem hk)
    obtain ⟨used, hreach, hunwritten⟩ := hhollow.exists_unwritten
    exact hwritten _ (List.getElem_mem hk) typeName htype used hreach hunwritten

/-! ### An array of so many elements as a constant says -/

/-- An array of numbers, by the expression for its length. -/
def quotaType (length : Json) : Json :=
  .obj [("nodeType", .str "ArrayTypeName"), ("baseType", elementaryType "uint256"),
    ("length", length)]

/-- The array, a number and a flag. -/
def quotaVariables (length : Json) : List Json :=
  [.obj [("id", .int 1), ("typeName", quotaType length)],
   .obj [("id", .int 2), ("typeName", elementaryType "uint256")],
   .obj [("id", .int 3), ("typeName", elementaryType "bool")]]

/-- A constant, three. -/
def quotaDefinitions : Definitions :=
  [(.number 4, .obj [("nodeType", .str "VariableDeclaration"), ("constant", .bool true),
    ("typeName", elementaryType "uint256"),
    ("value", .obj [("nodeType", .str "Literal"), ("value", .str "3")])])]

/-- The length as the name of the constant. -/
def namedLength : Json :=
  .obj [("nodeType", .str "Identifier"), ("name", .str "N"), ("referencedDeclaration", .int 4)]

/-- The length as a number. -/
def writtenLength : Json :=
  .obj [("nodeType", .str "Literal"), ("value", .str "3")]

/-- The layout of the variables. -/
def quotaLayout (length : Json) : Allocation :=
  found (allocate quotaDefinitions (quotaVariables length))

theorem hasType_elementaryType (name : String) :
    HasType (elementaryType name) "ElementaryTypeName" := rfl

theorem hasType_quotaType (length : Json) : HasType (quotaType length) "ArrayTypeName" := rfl

theorem elementaryType_throughout {P : Json → Prop} {name : String}
    (h : P (elementaryType name)) : Throughout definitions P (elementaryType name) := by
  refine .intro h fun used hused => ?_
  obtain ⟨harray, -⟩ | ⟨referenced, hnames, -⟩ := hused.compound
  · exact absurd ((hasType_elementaryType name).unique harray) (by decide)
  · exact absurd ((hasType_elementaryType name).unique hnames.1) (by decide)

theorem quotaType_throughout {P : Json → Prop} {length : Json} (hlength : length ≠ .null)
    (h : P (quotaType length)) (hbase : P (elementaryType "uint256")) :
    Throughout definitions P (quotaType length) := by
  refine .intro h fun used hused => ?_
  obtain rfl := (uses_array_iff (hasType_quotaType length) hlength rfl).mp hused
  exact elementaryType_throughout hbase

theorem elementaryType_accepted {name : String} {bytes : Int}
    (h : elementaryBytes name = .ok bytes) (hfits : 1 ≤ bytes ∧ bytes ≤ slotBytes) :
    Accepted definitions (elementaryType name) := by
  have hkind := hasType_elementaryType name
  refine ⟨?_, fun _ _ harray => ?_, fun _ hnames => ?_⟩
  · intro name' bytes' _ hname hbytes
    obtain rfl := Json.str.inj hname
    obtain rfl := Except.ok.inj (h.symm.trans hbytes)
    exact hfits
  · exact absurd (hkind.unique harray) (by decide)
  · exact absurd (hkind.unique hnames.1) (by decide)

theorem quotaType_accepted {length : Json}
    (h : ∀ count value, length.lookup "value" = .ok (some value) → arrayCount length = .ok count →
      1 ≤ count) : Accepted definitions (quotaType length) := by
  have hkind := hasType_quotaType length
  refine ⟨fun _ _ helementary => ?_, fun count value _ => h count value, fun _ hnames => ?_⟩
  · exact absurd (hkind.unique helementary) (by decide)
  · exact absurd (hkind.unique hnames.1) (by decide)

/-- A property that the three types have, and so that of the elements, holds throughout them. -/
theorem quotaVariables_throughout {P : Json → Prop} {length : Json} (hlength : length ≠ .null)
    (harray : P (quotaType length)) (hnumber : P (elementaryType "uint256"))
    (hflag : P (elementaryType "bool")) :
    ∀ declared ∈ quotaVariables length, ∀ typeName,
      declaredType quotaDefinitions declared = .ok typeName →
        Throughout quotaDefinitions P typeName := by
  simp only [quotaVariables, List.forall_mem_cons]
  refine ⟨?_, ?_, ?_, nofun⟩
  · rintro _ ⟨⟩
    exact quotaType_throughout hlength harray hnumber
  · rintro _ ⟨⟩
    exact elementaryType_throughout hnumber
  · rintro _ ⟨⟩
    exact elementaryType_throughout hflag

theorem quotaVariables_accepted {length : Json} (hlength : length ≠ .null)
    (h : ∀ count value, length.lookup "value" = .ok (some value) → arrayCount length = .ok count →
      1 ≤ count) :
    ∀ declared ∈ quotaVariables length, ∀ typeName,
      declaredType quotaDefinitions declared = .ok typeName →
        Throughout quotaDefinitions (Accepted quotaDefinitions) typeName := by
  have hnumber : elementaryBytes "uint256" = .ok 32 := rfl
  have hflag : elementaryBytes "bool" = .ok 1 := rfl
  exact quotaVariables_throughout hlength (quotaType_accepted h)
    (elementaryType_accepted hnumber (by decide)) (elementaryType_accepted hflag (by decide))

theorem namedLength_accepted (count : Int) (value : Json)
    (h : namedLength.lookup "value" = .ok (some value)) (_ : arrayCount namedLength = .ok count) :
    1 ≤ count := by
  cases h

theorem writtenLength_accepted (count : Int) (value : Json)
    (_ : writtenLength.lookup "value" = .ok (some value))
    (h : arrayCount writtenLength = .ok count) : 1 ≤ count := by
  have hthree : arrayCount writtenLength = .ok 3 := rfl
  obtain rfl := Except.ok.inj (hthree.symm.trans h)
  decide

/-- **The number begins where the array begins**: the array is given no room. -/
theorem quota_starts_shared :
    (quotaVariables namedLength).mapM declaredId = .ok [.number 1, .number 2, .number 3] ∧
    (∀ declared ∈ quotaVariables namedLength, ∀ typeName,
      declaredType quotaDefinitions declared = .ok typeName →
        Throughout quotaDefinitions (Accepted quotaDefinitions) typeName) ∧
    allocate quotaDefinitions (quotaVariables namedLength) = .ok (quotaLayout namedLength) ∧
    ∃ first second, (.number 1, first) ∈ (quotaLayout namedLength).places ∧
      (.number 2, second) ∈ (quotaLayout namedLength).places ∧ first.SharesStart second :=
  ⟨rfl, quotaVariables_accepted nofun namedLength_accepted, eq_ok_found (by decide +kernel),
    ⟨0, 0, 0⟩, ⟨0, 0, 32⟩, by decide +kernel, by decide +kernel, rfl, rfl⟩

/-- The name for the length is to blame: the flag begins further on, and with the length as a number
all three do. -/
theorem quota_starts :
    (∃ array number flag, (quotaLayout namedLength).places = [array, number, flag] ∧
      array.2.SharesStart number.2 ∧ ¬ number.2.SharesStart flag.2) ∧
    (quotaLayout writtenLength).places.Pairwise fun first second =>
      ¬ first.2.SharesStart second.2 := by
  obtain ⟨hnamed, hshared, -⟩ := @starts_shared_iff quotaDefinitions (quotaVariables namedLength)
    [.number 1, .number 2, .number 3] (quotaLayout namedLength) rfl (by decide)
    (quotaVariables_accepted nofun namedLength_accepted) (eq_ok_found (by decide +kernel))
  obtain ⟨-, -, hapart⟩ := @starts_shared_iff quotaDefinitions (quotaVariables writtenLength)
    [.number 1, .number 2, .number 3] (quotaLayout writtenLength) rfl (by decide)
    (quotaVariables_accepted nofun writtenLength_accepted) (eq_ok_found (by decide +kernel))
  -- the other two variables have elementary types, which are never hollow
  have helementary : ∀ name, ¬ LengthUnwritten (elementaryType name) := fun name hunwritten =>
    absurd ((hasType_elementaryType name).unique hunwritten.kind) (by decide)
  refine ⟨?_, hapart (quotaVariables_throughout nofun ?_ (helementary _) (helementary _))⟩
  · obtain ⟨array, number, flag, hplaces⟩ :=
      List.length_eq_three.mp (List.length_map Prod.fst ▸ congrArg List.length hnamed)
    rw [hplaces] at hshared
    refine ⟨array, number, flag, hplaces, ?_, fun hsame => ?_⟩
    · refine (hshared 0 1 array number Nat.one_pos rfl rfl).mpr fun k declared _ hk hdeclared => ?_
      obtain rfl := Nat.lt_one_iff.mp hk
      obtain rfl := Option.some.inj hdeclared
      exact ⟨_, rfl, .unwritten ⟨rfl, nofun, rfl⟩⟩
    · obtain ⟨typeName, htype, hhollow⟩ :=
        (hshared 1 2 number flag Nat.one_lt_two rfl rfl).mp hsame 1 _ le_rfl Nat.one_lt_two rfl
      obtain rfl := Except.ok.inj htype
      exact not_hollow_of_hasType (hasType_elementaryType _) (by decide) (by decide) hhollow
  · intro hunwritten
    cases hunwritten.no_value

end TraceDebugger.Storage
