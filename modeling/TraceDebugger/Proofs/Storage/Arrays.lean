/-
Arrays and as many variables.

The slots of a static array are computed from its length at once; a layout gives room to one
variable after the other.  Both come to the same.

* `Filled.step`, `filled_placeAll` — elements that share slots fill one slot after the other;
* `arrayExtent_eq_slotsUsed` — the extent of an array is what as many elements take;
* `extent_array_eq_slotsUsed` — so it is with the layout of as many variables of the type of its
  elements.
-/
import TraceDebugger.Proofs.Storage.Packing
import Mathlib.Algebra.Order.Ring.Int
import Mathlib.Tactic.Ring

namespace TraceDebugger.Storage

variable {definitions : Definitions} {entries : List (NodeId × Extent)} {cursor : Cursor}
  {bytes count slot offset : Int}

/-! ### Elements that take whole slots -/

theorem placeAll_slots {each : Int} (h : ∀ entry ∈ entries, entry.2 = .slots each)
    (hoffset : cursor.offset = 0) :
    (cursor.placeAll entries).slot = cursor.slot + entries.length * each ∧
      (cursor.placeAll entries).offset = 0 := by
  induction entries generalizing cursor with
  | nil => exact ⟨by simp [Cursor.placeAll], hoffset⟩
  | cons entry entries ih =>
    obtain ⟨hentry, hrest⟩ := List.forall_mem_cons.mp h
    have hslot : (cursor.place entry.1 entry.2).slot = cursor.slot + each := by
      rw [hentry, Cursor.place, Cursor.nextSlot, if_pos hoffset]
    obtain ⟨hslots, hoffset⟩ := @ih (cursor.place entry.1 entry.2) hrest (by rw [hentry]; rfl)
    refine ⟨?_, hoffset⟩
    rw [Cursor.placeAll, List.foldl_cons, ← Cursor.placeAll, hslots, hslot, List.length_cons]
    push_cast
    ring

/-! ### Elements that share slots -/

/-- A slot has room for one element at least. -/
theorem one_le_perSlot (hbytes : 1 ≤ bytes) (hle : bytes ≤ slotBytes) : 1 ≤ slotBytes / bytes :=
  (Int.le_ediv_iff_mul_le hbytes).mpr (by rwa [Int.one_mul])

/-- So many elements of a size fill the slots before the current one and stand in it in a row. -/
def Filled (bytes count slot offset : Int) : Prop :=
  ∃ beside, 0 ≤ slot ∧ 0 ≤ beside ∧ beside ≤ slotBytes / bytes ∧ offset = beside * bytes ∧
    count = slot * (slotBytes / bytes) + beside ∧ (beside = 0 → slot = 0)

/-- One more element stands beside the last one, or opens the next slot if the slot is full. -/
theorem Filled.step (h : Filled bytes count cursor.slot cursor.offset) (hbytes : 1 ≤ bytes)
    (hle : bytes ≤ slotBytes) (id : NodeId) :
    Filled bytes (count + 1) (cursor.place id (.packed bytes)).slot
      (cursor.place id (.packed bytes)).offset := by
  obtain ⟨beside, hslot, hbeside, hmost, hoffset, rfl, -⟩ := h
  have hper := one_le_perSlot hbytes hle
  have hroom : beside + 1 ≤ slotBytes / bytes ↔ cursor.offset + bytes ≤ slotBytes := by
    rw [Int.le_ediv_iff_mul_le hbytes, hoffset, Int.add_mul, Int.one_mul]
  rw [Cursor.place]
  dsimp only
  split
  · -- as many as a slot has room for stand in it
    have hfull : beside = slotBytes / bytes := by omega
    exact ⟨1, Int.add_nonneg hslot Int.one_nonneg, Int.one_nonneg, hper, by ring,
      by rw [hfull]; ring, by omega⟩
  · exact ⟨beside + 1, hslot, by omega, by omega, by rw [hoffset]; ring, by ring, by omega⟩

theorem filled_placeAll (h : ∀ entry ∈ entries, entry.2 = .packed bytes) (hbytes : 1 ≤ bytes)
    (hle : bytes ≤ slotBytes) (hfilled : Filled bytes count cursor.slot cursor.offset) :
    Filled bytes (count + entries.length) (cursor.placeAll entries).slot
      (cursor.placeAll entries).offset := by
  induction entries generalizing cursor count with
  | nil => simpa [Cursor.placeAll] using hfilled
  | cons entry entries ih =>
    obtain ⟨hentry, hrest⟩ := List.forall_mem_cons.mp h
    have hnext := ih hrest (hentry ▸ hfilled.step hbytes hle entry.1)
    rw [List.length_cons, Nat.cast_add, Nat.cast_one, Int.add_comm _ 1, ← Int.add_assoc]
    exact hnext

/-- The slots in use are as many as the elements fill, the last one perhaps in part. -/
theorem Filled.slots_eq (h : Filled bytes count slot offset) (hbytes : 1 ≤ bytes)
    (hle : bytes ≤ slotBytes) :
    -((-count) / (slotBytes / bytes)) = if offset = 0 then slot else slot + 1 := by
  obtain ⟨beside, hslot, hbeside, hmost, rfl, rfl, hnone⟩ := h
  have hper := one_le_perSlot hbytes hle
  by_cases hzero : beside = 0
  · rw [hnone hzero, hzero]
    simp
  · have hne : beside * bytes ≠ 0 := Int.mul_ne_zero hzero (by omega)
    -- no more elements stand in the last slot than it has room for, and at least one does
    have hceil : -(slot * (slotBytes / bytes) + beside) / (slotBytes / bytes) = -(slot + 1) := by
      rw [Int.ediv_eq_iff_of_pos hper, Int.neg_mul, Int.add_mul, Int.one_mul]
      omega
    rw [if_neg hne, hceil, Int.neg_neg]

/-! ### Arrays -/

/-- The extent of an array is what as many elements take. -/
theorem arrayExtent_eq_slotsUsed {room : Extent} (h : ∀ entry ∈ entries, entry.2 = room)
    (hfits : ∀ bytes, room = .packed bytes → 1 ≤ bytes ∧ bytes ≤ slotBytes) :
    arrayExtent entries.length room =
      .ok (.slots (Cursor.placeAll {} entries).finish.slotsUsed) := by
  cases room with
  | slots each =>
    obtain ⟨hslot, hoffset⟩ := @placeAll_slots entries {} each h rfl
    rw [arrayExtent, Cursor.finish, if_pos hoffset, hslot, Int.zero_add]
  | packed bytes =>
    obtain ⟨hbytes, hle⟩ := hfits bytes rfl
    have hper := one_le_perSlot hbytes hle
    have hnone : Filled bytes 0 0 0 :=
      ⟨0, le_rfl, le_rfl, by omega, (Int.zero_mul _).symm, by ring, fun _ => rfl⟩
    have hfilled := @filled_placeAll entries {} bytes 0 h hbytes hle hnone
    rw [Int.zero_add] at hfilled
    rw [arrayExtent, if_neg (by omega), Int.fdiv_eq_ediv_of_nonneg _ (by omega),
      hfilled.slots_eq hbytes hle, Cursor.finish]

/-- A type is an array of so many elements of a type. -/
structure ArrayOf (typeName base : Json) (count : Nat) : Prop where
  kind : HasType typeName "ArrayTypeName"
  length_ne_null : (typeName.get? "length").getD .null ≠ .null
  count_eq : arrayCount ((typeName.get? "length").getD .null) = .ok (count : Int)
  base_eq : typeName.require "baseType" = .ok base

/-- Nothing is no type. -/
theorem ne_null_of_extentWithin {typeName : Json} {room : Extent} {depth : Nat}
    (h : extentWithin definitions depth typeName = .ok room) : typeName ≠ .null := by
  rintro rfl
  cases depth <;> cases h

/-- Declarations of one type are laid out with its extent each. -/
theorem exists_entries {declarations : List Json} {base : Json} {room : Extent} {depth : Nat}
    (hids : ∀ declared ∈ declarations, ∃ id, declaredId declared = .ok id)
    (htypes : ∀ declared ∈ declarations, declaredType definitions declared = .ok base)
    (hroom : extentWithin definitions depth base = .ok room) :
    ∃ entries : List (NodeId × Extent),
      List.Forall₂ (EntersAs definitions (extentWithin definitions depth)) declarations entries ∧
      ∀ entry ∈ entries, entry.2 = room := by
  induction declarations with
  | nil => exact ⟨[], .nil, nofun⟩
  | cons declared declarations ih =>
    obtain ⟨⟨id, hid⟩, hids⟩ := List.forall_mem_cons.mp hids
    obtain ⟨htype, htypes⟩ := List.forall_mem_cons.mp htypes
    obtain ⟨entries, hentries, hsame⟩ := ih hids htypes
    exact ⟨(id, room) :: entries,
      .cons ⟨hid, base, htype, ne_null_of_extentWithin hroom, hroom⟩ hentries,
      List.forall_mem_cons.mpr ⟨rfl, hsame⟩⟩

/-- **An array takes the slots of its elements laid out one by one.**  Let a type have an extent,
the elementary types that it is made of having one to 32 bytes.  Then variables of that type,
however many, have a layout, and an array of as many elements takes the slots that they take. -/
theorem extent_array_eq_slotsUsed {declarations : List Json} {typeName base : Json} {room : Extent}
    (hsizes : Throughout definitions SizeFits base)
    (hbase : Storage.extent definitions base = .ok room)
    (hids : ∀ declared ∈ declarations, ∃ id, declaredId declared = .ok id)
    (htypes : ∀ declared ∈ declarations, declaredType definitions declared = .ok base)
    (harray : ArrayOf typeName base declarations.length) :
    ∃ allocation, allocate definitions declarations = .ok allocation ∧
      Storage.extent definitions typeName = .ok (.slots allocation.slotsUsed) := by
  obtain ⟨entries, hentries, hsame⟩ := exists_entries hids htypes hbase
  have hroom := arrayExtent_eq_slotsUsed hsame fun bytes hpacked =>
    packed_fits hsizes (hpacked ▸ hbase)
  rw [← hentries.length_eq] at hroom
  have hmeasured : Measured definitions (extentWithin definitions (depthLimit definitions [base]))
      typeName (.slots (Cursor.placeAll {} entries).finish.slotsUsed) :=
    .array harray.kind harray.length_ne_null harray.count_eq harray.base_eq hbase hroom
  exact ⟨_, allocate_eq_of_layOut (layOut_eq_ok_iff.mpr ⟨entries, hentries, rfl⟩),
    extent_eq_of_extentWithin (extentWithin_succ_iff.mpr hmeasured)⟩

/-- Some variables of 12 bytes each. -/
def fiveNumbers : List Json :=
  [1, 2, 3, 4, 5].map fun id : Int =>
    .obj [("id", .int id), ("typeName", elementaryType "uint96")]

theorem fiveNumbers_share_type : ∀ declared ∈ fiveNumbers, (∃ id, declaredId declared = .ok id) ∧
    declaredType [] declared = .ok (elementaryType "uint96") := by
  intro declared h
  obtain ⟨id, -, rfl⟩ := List.mem_map.mp h
  exact ⟨⟨.number id, rfl⟩, rfl⟩

/-- Two of them share a slot, so five take three slots, and so does an array of five. -/
theorem fiveNumbers_slots : ∃ allocation, allocate [] fiveNumbers = .ok allocation ∧
    allocation.slotsUsed = 3 ∧
    Storage.extent [] (arrayType (elementaryType "uint96") "5") = .ok (.slots 3) := by
  have hnumber : elementaryBytes "uint96" = .ok 12 := rfl
  obtain ⟨allocation, hallocation, hextent⟩ := @extent_array_eq_slotsUsed [] fiveNumbers
    (arrayType (elementaryType "uint96") "5") (elementaryType "uint96") (.packed 12)
    (elementaryType_fits hnumber (by decide)).1 rfl
    (fun declared h => (fiveNumbers_share_type declared h).1)
    (fun declared h => (fiveNumbers_share_type declared h).2) ⟨rfl, nofun, rfl, rfl⟩
  have hlayout : allocate [] fiveNumbers = .ok (found (allocate [] fiveNumbers)) :=
    eq_ok_found (by decide +kernel)
  obtain rfl := Except.ok.inj (hallocation.symm.trans hlayout)
  have hslots : (found (allocate [] fiveNumbers)).slotsUsed = 3 := by decide +kernel
  exact ⟨_, hlayout, hslots, hslots ▸ hextent⟩

end TraceDebugger.Storage
