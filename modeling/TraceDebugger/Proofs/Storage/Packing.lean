/-
How variables are packed into slots.

A layout is a walk of the cursor over the bytes of the storage: each variable is put where the
cursor stands or at the next slot, and the cursor moves to its end.

* `Cursor.step_place` — what one step of the walk does;
* `Cursor.pairwise_laid`, `Cursor.isChain_laid`, `Cursor.exists_last_slot` — what the walk leaves;
* `packed_laid`, `isLeast_slotsUsed` — variables that fit are packed, into as few slots as can be;
* `extent_fits`, `whole_iff_takesSlots` — which types fit, and which take whole slots;
* `packed_of_allocate` — so layouts of types that fit are packed.
-/
import TraceDebugger.Proofs.Storage.Extents
import Mathlib.Order.Bounds.Basic

namespace TraceDebugger.Storage

open SyntaxTree (valueOf? setEntry)

variable {definitions : Definitions} {typeName used referenced : Json} {room : Extent}

/-! ### Places -/

namespace Place

/-- The byte of the storage that a place begins at. -/
def start (place : Place) : Int := slotBytes * place.slot + place.offset

/-- The byte of the storage that a place ends before. -/
def stop (place : Place) : Int := place.start + place.size

/-- The bytes of the storage that a place takes. -/
def bytes (place : Place) : Set Int := {n | place.start ≤ n ∧ n < place.stop}

end Place

/-- A variable that is laid out. -/
structure Variable where
  id : NodeId
  extent : Extent
  place : Place

/-- An extent is of whole slots. -/
def Extent.Whole : Extent → Prop
  | .slots _ => True
  | .packed _ => False

/-- An extent that storage has room for: some of the bytes of a slot, or some slots. -/
def Extent.Fits : Extent → Prop
  | .slots count => 0 ≤ count
  | .packed bytes => 1 ≤ bytes ∧ bytes ≤ slotBytes

/-- A variable lies inside one slot, or takes whole ones. -/
inductive Seated (v : Variable) : Prop
  | inside (hextent : v.extent = .packed v.place.size) (hsize : 1 ≤ v.place.size)
      (hoffset : 0 ≤ v.place.offset) (hroom : v.place.offset + v.place.size ≤ slotBytes)
  | slots {count : Int} (hextent : v.extent = .slots count) (hcount : 0 ≤ count)
      (hoffset : v.place.offset = 0) (hsize : v.place.size = slotBytes * count)

theorem Seated.start_le_stop {v : Variable} (h : Seated v) : v.place.start ≤ v.place.stop := by
  cases h with
  | inside _ hsize => rw [Place.stop]; omega
  | slots _ hcount _ hsize => rw [Place.stop, hsize, slotBytes]; omega

/-- Where a variable of whole slots begins or ends, a slot does. -/
theorem Seated.slot_ne {earlier later : Variable} (hearlier : Seated earlier)
    (hlater : Seated later) (h : earlier.place.stop ≤ later.place.start)
    (hwhole : earlier.extent.Whole ∨ later.extent.Whole) {n m : Int}
    (hn : n ∈ earlier.place.bytes) (hm : m ∈ later.place.bytes) :
    n / slotBytes ≠ m / slotBytes := by
  -- a slot begins between the two bytes
  have hend : ∃ slot, n < slotBytes * slot ∧ slotBytes * slot ≤ m := by
    obtain hwhole | hwhole := hwhole
    · cases hearlier with
      | inside hextent => exact absurd hwhole (hextent ▸ not_false)
      | @slots count _ _ hoffset hsize =>
        have hstop : earlier.place.stop = slotBytes * (earlier.place.slot + count) := by
          rw [Place.stop, Place.start, hoffset, hsize, Int.add_zero, Int.mul_add]
        exact ⟨_, hstop ▸ hn.2, hstop ▸ h.trans hm.1⟩
    · cases hlater with
      | inside hextent => exact absurd hwhole (hextent ▸ not_false)
      | slots _ _ hoffset =>
        have hstart : later.place.start = slotBytes * later.place.slot := by
          rw [Place.start, hoffset, Int.add_zero]
        exact ⟨_, hstart ▸ hn.2.trans_le h, hstart ▸ hm.1⟩
  obtain ⟨slot, hbelow, habove⟩ := hend
  rw [slotBytes] at *
  omega

/-- How a variable follows the one that is declared just before it. -/
inductive Follows (earlier later : Variable) : Prop
  /-- It stands beside it, in what is left of the slot. -/
  | beside (hearlier : ¬ earlier.extent.Whole) (hlater : ¬ later.extent.Whole)
      (hroom : earlier.place.offset + earlier.place.size + later.place.size ≤ slotBytes)
      (hslot : later.place.slot = earlier.place.slot)
      (hoffset : later.place.offset = earlier.place.offset + earlier.place.size)
  /-- It opens a slot because what is left of the slot has no room for it. -/
  | crowded (hearlier : ¬ earlier.extent.Whole) (hlater : ¬ later.extent.Whole)
      (hroom : slotBytes < earlier.place.offset + earlier.place.size + later.place.size)
      (hslot : later.place.slot = earlier.place.slot + 1) (hoffset : later.place.offset = 0)
  /-- It opens a slot because it takes whole slots. -/
  | whole (hearlier : ¬ earlier.extent.Whole) (hlater : later.extent.Whole)
      (hslot : later.place.slot = earlier.place.slot + 1) (hoffset : later.place.offset = 0)
  /-- It opens a slot because the one before it takes whole slots. -/
  | afterWhole (hearlier : earlier.extent.Whole) (hoffset : later.place.offset = 0)
      (hstart : later.place.start = earlier.place.stop)

/-- How variables are packed, in the order of their declarations. -/
structure Packed (laid : List Variable) : Prop where
  /-- The first one is at the beginning. -/
  first : ∀ v ∈ laid.head?, v.place.slot = 0 ∧ v.place.offset = 0
  /-- Each lies inside one slot, or takes whole ones. -/
  seated : ∀ v ∈ laid, Seated v
  /-- They stand one after the other. -/
  ordered : laid.Pairwise fun earlier later => earlier.place.stop ≤ later.place.start
  /-- They have no bytes in common. -/
  disjoint : laid.Pairwise fun earlier later =>
    ∀ n ∈ earlier.place.bytes, n ∉ later.place.bytes
  /-- What takes whole slots has no byte in a slot that another one has a byte in. -/
  alone : laid.Pairwise fun earlier later => earlier.extent.Whole ∨ later.extent.Whole →
    ∀ n ∈ earlier.place.bytes, ∀ m ∈ later.place.bytes, n / slotBytes ≠ m / slotBytes
  /-- None opens a slot without need. -/
  follows : laid.IsChain Follows

/-! ### One step of the walk -/

namespace Cursor

/-- How many bytes of the storage the cursor has passed. -/
def position (cursor : Cursor) : Int := slotBytes * cursor.slot + cursor.offset

/-- A cursor stands in the storage. -/
def Sound (cursor : Cursor) : Prop :=
  0 ≤ cursor.slot ∧ 0 ≤ cursor.offset ∧ cursor.offset ≤ slotBytes

theorem Sound.start : Sound {} := ⟨le_rfl, le_rfl, by decide⟩

/-- The place that a variable is given. -/
def placeFor (cursor : Cursor) : Extent → Place
  | .slots count => ⟨cursor.nextSlot.slot, 0, count * slotBytes⟩
  | .packed bytes =>
    if slotBytes < cursor.offset + bytes then ⟨cursor.slot + 1, 0, bytes⟩
    else ⟨cursor.slot, cursor.offset, bytes⟩

@[simp] theorem places_nextSlot (cursor : Cursor) : cursor.nextSlot.places = cursor.places := by
  rw [nextSlot]
  split <;> rfl

/-- A variable that is given room gets a place, and the others keep theirs. -/
theorem places_place (cursor : Cursor) (id : NodeId) (room : Extent) :
    (cursor.place id room).places = setEntry id (cursor.placeFor room) cursor.places := by
  cases room with
  | slots count => rw [place, placeFor, places_nextSlot]
  | packed bytes =>
    rw [place, placeFor]
    split <;> rfl

/-- What a step does to the slot and the offset of the cursor, and the place that it gives. -/
inductive Step (cursor : Cursor) : Extent → Place → Int → Int → Prop
  /-- There is room in the slot. -/
  | beside {bytes : Int} (h : cursor.offset + bytes ≤ slotBytes) : Step cursor (.packed bytes)
      ⟨cursor.slot, cursor.offset, bytes⟩ cursor.slot (cursor.offset + bytes)
  /-- There is none. -/
  | crowded {bytes : Int} (h : slotBytes < cursor.offset + bytes) : Step cursor (.packed bytes)
      ⟨cursor.slot + 1, 0, bytes⟩ (cursor.slot + 1) (0 + bytes)
  /-- The slot is untouched. -/
  | fresh {count : Int} (h : cursor.offset = 0) : Step cursor (.slots count)
      ⟨cursor.slot, 0, slotBytes * count⟩ (cursor.slot + count) 0
  /-- It is not. -/
  | whole {count : Int} (h : cursor.offset ≠ 0) : Step cursor (.slots count)
      ⟨cursor.slot + 1, 0, slotBytes * count⟩ (cursor.slot + 1 + count) 0

theorem step_place (cursor : Cursor) (id : NodeId) (room : Extent) :
    Step cursor room (cursor.placeFor room) (cursor.place id room).slot
      (cursor.place id room).offset := by
  cases room with
  | slots count =>
    rw [placeFor, place, nextSlot, Int.mul_comm]
    split
    · exact .fresh ‹_›
    · exact .whole ‹_›
  | packed bytes =>
    rw [placeFor, place]
    split
    · exact .crowded ‹_›
    · exact .beside (Int.not_lt.mp ‹_›)

/-- The first variable is put at the beginning. -/
theorem placeFor_start (hfits : room.Fits) :
    (placeFor {} room).slot = 0 ∧ (placeFor {} room).offset = 0 := by
  cases room with
  | slots count => exact ⟨rfl, rfl⟩
  | packed bytes =>
    rw [placeFor, if_neg (by simpa using hfits.2)]
    exact ⟨rfl, rfl⟩

section Step

variable {cursor : Cursor} {given : Place} {slot offset : Int}

theorem Step.sound (h : Step cursor room given slot offset) (hsound : cursor.Sound)
    (hfits : room.Fits) : 0 ≤ slot ∧ 0 ≤ offset ∧ offset ≤ slotBytes := by
  obtain ⟨hslot, hoffset, hle⟩ := hsound
  cases h <;> simp only [Extent.Fits] at hfits <;> simp only [slotBytes] at * <;> omega

/-- A variable is put where the cursor stands or further on. -/
theorem Step.position_le (h : Step cursor room given slot offset) (hsound : cursor.Sound) :
    cursor.position ≤ given.start := by
  obtain ⟨-, hoffset, hle⟩ := hsound
  cases h <;> simp only [position, Place.start, slotBytes] at * <;> omega

/-- The cursor moves to the end of the variable. -/
theorem Step.stop_eq (h : Step cursor room given slot offset) :
    given.stop = slotBytes * slot + offset := by
  cases h <;> simp only [Place.stop, Place.start, slotBytes] <;> omega

/-- A variable lies in its slot, or takes whole ones. -/
theorem Step.seated (h : Step cursor room given slot offset) (hsound : cursor.Sound)
    (hfits : room.Fits) (id : NodeId) : Seated ⟨id, room, given⟩ := by
  obtain ⟨-, hoffset, hle⟩ := hsound
  cases h with
  | beside h => exact .inside rfl hfits.1 hoffset h
  | crowded h => exact .inside rfl hfits.1 le_rfl (by rw [Int.zero_add]; exact hfits.2)
  | fresh => exact .slots rfl hfits rfl rfl
  | whole => exact .slots rfl hfits rfl rfl

/-- The slots in use are those that were, or the variable ends in the last of them. -/
theorem Step.slotsUsed (h : Step cursor room given slot offset) (hsound : cursor.Sound)
    (hfits : room.Fits) :
    (if offset = 0 then slot else slot + 1) = cursor.finish.slotsUsed ∨
      given.start < given.stop ∧
        slotBytes * ((if offset = 0 then slot else slot + 1) - 1) < given.stop := by
  obtain ⟨-, hoffset, -⟩ := hsound
  rw [h.stop_eq, finish]
  cases h with
  | beside | crowded =>
    -- it has a byte in the slot of the cursor
    have hfits := hfits.1
    right
    rw [if_neg (by omega), Place.start, slotBytes]
    dsimp only
    omega
  | fresh h =>
    simp only [Extent.Fits, Place.start, slotBytes, if_pos h, if_pos] at hfits ⊢
    omega
  | whole h =>
    simp only [Extent.Fits, Place.start, slotBytes, if_neg h, if_pos] at hfits ⊢
    omega

/-- A variable follows the one that the cursor has just passed. -/
theorem Step.follows {passed : Cursor} {before : Extent} {last : Place}
    (hbefore : Step passed before last cursor.slot cursor.offset) (hsound : passed.Sound)
    (hpassed : before.Fits) (h : Step cursor room given slot offset) (hfits : room.Fits)
    (id id' : NodeId) : Follows ⟨id, before, last⟩ ⟨id', room, given⟩ := by
  obtain ⟨-, hoffset, -⟩ := hsound
  have hstop := hbefore.stop_eq
  obtain ⟨places, middle, left⟩ := cursor
  dsimp only at hbefore hstop
  cases hbefore with
  | beside | crowded =>
    -- the cursor has just passed bytes of its slot
    cases h with
    | beside h => exact .beside not_false not_false h rfl rfl
    | crowded h => exact .crowded not_false not_false h rfl rfl
    | fresh h => exact absurd h (by have := hpassed.1; dsimp only; omega)
    | whole => exact .whole not_false trivial rfl rfl
  | fresh | whole =>
    -- the cursor is at the beginning of a slot
    cases h with
    | beside => exact .afterWhole trivial rfl hstop.symm
    | crowded h => exact absurd h (by simpa using hfits.2)
    | fresh => exact .afterWhole trivial rfl hstop.symm
    | whole h => exact absurd rfl h

end Step

/-! ### The whole walk -/

/-- The variables that are laid out from a cursor on. -/
def laid (cursor : Cursor) : List (NodeId × Extent) → List Variable
  | [] => []
  | entry :: entries =>
    ⟨entry.1, entry.2, cursor.placeFor entry.2⟩ :: (cursor.place entry.1 entry.2).laid entries

section Walk

variable {cursor : Cursor} {entries : List (NodeId × Extent)}

theorem sound_place (hsound : cursor.Sound) (id : NodeId) (hfits : room.Fits) :
    (cursor.place id room).Sound :=
  (cursor.step_place id room).sound hsound hfits

/-- The cursor passes a variable. -/
theorem position_place (cursor : Cursor) (id : NodeId) (room : Extent) :
    (cursor.place id room).position = (cursor.placeFor room).stop :=
  (cursor.step_place id room).stop_eq.symm

theorem sound_placeAll (hsound : cursor.Sound) (hfits : ∀ entry ∈ entries, entry.2.Fits) :
    (cursor.placeAll entries).Sound := by
  induction entries generalizing cursor with
  | nil => exact hsound
  | cons entry entries ih =>
    obtain ⟨hentry, hrest⟩ := List.forall_mem_cons.mp hfits
    exact ih (sound_place hsound entry.1 hentry) hrest

theorem seated_of_mem_laid (hsound : cursor.Sound) (hfits : ∀ entry ∈ entries, entry.2.Fits) :
    ∀ v ∈ cursor.laid entries, Seated v := by
  induction entries generalizing cursor with
  | nil => nofun
  | cons entry entries ih =>
    obtain ⟨hentry, hrest⟩ := List.forall_mem_cons.mp hfits
    have hstep := cursor.step_place entry.1 entry.2
    exact List.forall_mem_cons.mpr
      ⟨hstep.seated hsound hentry entry.1, ih (sound_place hsound entry.1 hentry) hrest⟩

/-- The cursor never moves back. -/
theorem position_le_placeAll (hsound : cursor.Sound) (hfits : ∀ entry ∈ entries, entry.2.Fits) :
    cursor.position ≤ (cursor.placeAll entries).position := by
  induction entries generalizing cursor with
  | nil => exact le_rfl
  | cons entry entries ih =>
    obtain ⟨hentry, hrest⟩ := List.forall_mem_cons.mp hfits
    have hstep := cursor.step_place entry.1 entry.2
    calc cursor.position
      _ ≤ (cursor.placeFor entry.2).start := hstep.position_le hsound
      _ ≤ (cursor.placeFor entry.2).stop := (hstep.seated hsound hentry entry.1).start_le_stop
      _ = (cursor.place entry.1 entry.2).position := (cursor.position_place entry.1 entry.2).symm
      _ ≤ _ := ih (sound_place hsound entry.1 hentry) hrest

/-- Variables are laid out between where the cursor was and where it is at the end. -/
theorem between_of_mem_laid (hsound : cursor.Sound) (hfits : ∀ entry ∈ entries, entry.2.Fits) :
    ∀ v ∈ cursor.laid entries, cursor.position ≤ v.place.start ∧
      v.place.stop ≤ (cursor.placeAll entries).position := by
  induction entries generalizing cursor with
  | nil => nofun
  | cons entry entries ih =>
    obtain ⟨hentry, hrest⟩ := List.forall_mem_cons.mp hfits
    have hstep := cursor.step_place entry.1 entry.2
    have hsound' := sound_place hsound entry.1 hentry
    have hstart := hstep.position_le hsound
    refine List.forall_mem_cons.mpr ⟨⟨hstart, ?_⟩, fun v hv => ?_⟩
    · rw [← cursor.position_place entry.1 entry.2]
      exact position_le_placeAll hsound' hrest
    · obtain ⟨hlow, hhigh⟩ := ih hsound' hrest v hv
      have hpassed := (hstep.seated hsound hentry entry.1).start_le_stop
      rw [position_place] at hlow
      exact ⟨(hstart.trans hpassed).trans hlow, hhigh⟩

/-- Variables stand one after the other. -/
theorem pairwise_laid (hsound : cursor.Sound) (hfits : ∀ entry ∈ entries, entry.2.Fits) :
    (cursor.laid entries).Pairwise fun earlier later => earlier.place.stop ≤ later.place.start := by
  induction entries generalizing cursor with
  | nil => exact .nil
  | cons entry entries ih =>
    obtain ⟨hentry, hrest⟩ := List.forall_mem_cons.mp hfits
    have hsound' := sound_place hsound entry.1 hentry
    refine List.pairwise_cons.mpr ⟨fun v hv => ?_, ih hsound' hrest⟩
    rw [← cursor.position_place entry.1 entry.2]
    exact (between_of_mem_laid hsound' hrest v hv).1

/-- Each variable follows the one before it. -/
theorem isChain_laid (hsound : cursor.Sound) (hfits : ∀ entry ∈ entries, entry.2.Fits) :
    (cursor.laid entries).IsChain Follows := by
  induction entries generalizing cursor with
  | nil => exact .nil
  | cons entry entries ih =>
    obtain ⟨hentry, hrest⟩ := List.forall_mem_cons.mp hfits
    have hchain := ih (sound_place hsound entry.1 hentry) hrest
    cases entries with
    | nil => exact .singleton _
    | cons next entries =>
      have hnext := (cursor.place entry.1 entry.2).step_place next.1 next.2
      exact .cons_cons ((cursor.step_place entry.1 entry.2).follows hsound hentry hnext
        (hrest next List.mem_cons_self) _ _) hchain

/-- Unless no slot came into use, a variable ends in the last one that is. -/
theorem exists_last_slot (hsound : cursor.Sound) (hfits : ∀ entry ∈ entries, entry.2.Fits) :
    (cursor.placeAll entries).finish.slotsUsed = cursor.finish.slotsUsed ∨
      ∃ v ∈ cursor.laid entries, v.place.start < v.place.stop ∧
        slotBytes * ((cursor.placeAll entries).finish.slotsUsed - 1) < v.place.stop := by
  induction entries generalizing cursor with
  | nil => exact .inl rfl
  | cons entry entries ih =>
    obtain ⟨hentry, hrest⟩ := List.forall_mem_cons.mp hfits
    obtain hsame | ⟨v, hv, hlast⟩ := ih (sound_place hsound entry.1 hentry) hrest
    · rw [placeAll, List.foldl_cons, ← placeAll, hsame]
      obtain hused | hused := (cursor.step_place entry.1 entry.2).slotsUsed hsound hentry
      · exact .inl hused
      · exact .inr ⟨_, List.mem_cons_self, hused⟩
    · exact .inr ⟨v, List.mem_cons_of_mem _ hv, hlast⟩

/-- Different identities have their places in the order in which they are laid out. -/
theorem places_placeAll (hdistinct : (cursor.places.map Prod.fst ++ entries.map Prod.fst).Nodup) :
    (cursor.placeAll entries).places =
      cursor.places ++ (cursor.laid entries).map fun v => (v.id, v.place) := by
  induction entries generalizing cursor with
  | nil => exact (List.append_nil _).symm
  | cons entry entries ih =>
    have hnew : entry.1 ∉ cursor.places.map Prod.fst := fun h =>
      List.disjoint_of_nodup_append hdistinct h List.mem_cons_self
    have hplaces := cursor.places_place entry.1 entry.2
    rw [SyntaxTree.setEntry_of_not_mem hnew] at hplaces
    have hrest := @ih (cursor.place entry.1 entry.2) (by
      rw [hplaces]
      simpa using hdistinct)
    rw [hplaces, List.append_assoc] at hrest
    exact hrest

end Walk

end Cursor

/-- What the walk leaves is packed. -/
theorem packed_laid {entries : List (NodeId × Extent)} (hfits : ∀ entry ∈ entries, entry.2.Fits) :
    Packed (Cursor.laid {} entries) where
  first := by
    cases entries with
    | nil => nofun
    | cons entry entries =>
      intro v hv
      obtain rfl := Option.some.inj hv
      exact Cursor.placeFor_start (hfits entry List.mem_cons_self)
  seated := Cursor.seated_of_mem_laid .start hfits
  ordered := Cursor.pairwise_laid .start hfits
  disjoint := (Cursor.pairwise_laid .start hfits).imp fun h n hearlier hlater =>
    absurd (hearlier.2.trans_le h) (not_lt.mpr hlater.1)
  alone := by
    have hseated := Cursor.seated_of_mem_laid .start hfits
    refine (Cursor.pairwise_laid .start hfits).imp_of_mem fun hearlier hlater h => ?_
    exact fun hwhole n hn m hm =>
      (hseated _ hearlier).slot_ne (hseated _ hlater) h hwhole hn hm
  follows := Cursor.isChain_laid .start hfits

/-- The slots in use are the fewest that hold the variables. -/
theorem isLeast_slotsUsed {entries : List (NodeId × Extent)}
    (hfits : ∀ entry ∈ entries, entry.2.Fits) :
    IsLeast {count : Int | 0 ≤ count ∧
        ∀ v ∈ Cursor.laid {} entries, ∀ n ∈ v.place.bytes, 0 ≤ n ∧ n < slotBytes * count}
      (Cursor.placeAll {} entries).finish.slotsUsed := by
  obtain ⟨hslot, hoffset, hle⟩ := Cursor.sound_placeAll .start hfits
  have hlast := Cursor.exists_last_slot .start hfits
  have hwithin := Cursor.between_of_mem_laid .start hfits
  generalize Cursor.placeAll {} entries = last at *
  -- the slots in use reach as far as the cursor has come
  have hused : last.position ≤ slotBytes * last.finish.slotsUsed ∧ 0 ≤ last.finish.slotsUsed := by
    simp only [Cursor.position, Cursor.finish, slotBytes] at *
    split <;> omega
  refine ⟨⟨hused.2, fun v hv n hn => ?_⟩, fun count hcount => ?_⟩
  · obtain ⟨hlow, hhigh⟩ := hwithin v hv
    exact ⟨hlow.trans hn.1, (hn.2.trans_le hhigh).trans_le hused.1⟩
  · obtain ⟨hcount, hholds⟩ := hcount
    obtain hnone | ⟨v, hv, hlt, hends⟩ := hlast
    · rw [hnone]
      exact hcount
    · -- the last byte of the variable is in the last slot
      have hbyte :=
        (hholds v hv _ ⟨Int.le_sub_one_of_lt hlt, Int.sub_one_lt_of_le le_rfl⟩).2
      rw [slotBytes] at *
      omega

/-! ### Types -/

/-- A property holds of a type and of all types that it is made of. -/
def Throughout (definitions : Definitions) (P : Json → Prop) (typeName : Json) : Prop :=
  ∀ used, Relation.ReflTransGen (Uses definitions) typeName used → P used

theorem Throughout.self {P : Json → Prop} (h : Throughout definitions P typeName) : P typeName :=
  h typeName .refl

theorem Throughout.of_uses {P : Json → Prop} (h : Throughout definitions P typeName)
    (huses : Uses definitions typeName used) : Throughout definitions P used :=
  fun other hother => h other (.head huses hother)

theorem Throughout.intro {P : Json → Prop} (hself : P typeName)
    (huses : ∀ used, Uses definitions typeName used → Throughout definitions P used) :
    Throughout definitions P typeName := by
  intro other hother
  obtain rfl | ⟨used, hused, hother⟩ := Relation.ReflTransGen.cases_head hother
  · exact hself
  · exact huses used hused other hother

/-- An elementary type has some bytes, and no more than a slot. -/
def SizeFits (typeName : Json) : Prop :=
  ∀ name bytes, HasType typeName "ElementaryTypeName" →
    (typeName.get? "name").getD (.str "") = .str name → elementaryBytes name = .ok bytes →
    1 ≤ bytes ∧ bytes ≤ slotBytes

/-- An array has no negative length. -/
def CountFits (typeName : Json) : Prop :=
  ∀ count, HasType typeName "ArrayTypeName" → (typeName.get? "length").getD .null ≠ .null →
    arrayCount ((typeName.get? "length").getD .null) = .ok count → 0 ≤ count

/-- The types of whole slots: mappings, arrays and structures, and names for them. -/
inductive TakesSlots (definitions : Definitions) : Json → Prop
  | mapping {typeName : Json} (h : HasType typeName "Mapping") : TakesSlots definitions typeName
  | array {typeName : Json} (h : HasType typeName "ArrayTypeName") : TakesSlots definitions typeName
  | struct {typeName referenced : Json} (h : Names definitions typeName referenced)
      (hkind : HasType referenced "StructDefinition") : TakesSlots definitions typeName
  | valueType {typeName referenced underlying : Json} (h : Names definitions typeName referenced)
      (hkind : HasType referenced "UserDefinedValueTypeDefinition")
      (hunderlying : referenced.require "underlyingType" = .ok underlying)
      (hslots : TakesSlots definitions underlying) : TakesSlots definitions typeName

variable {depth : Nat}

/-- An array takes whole slots. -/
theorem whole_of_arrayExtent {count : Int} {element : Extent}
    (h : arrayExtent count element = .ok room) : room.Whole := by
  cases element with
  | slots each =>
    obtain rfl := Except.ok.inj h
    trivial
  | packed bytes =>
    rw [arrayExtent] at h
    split at h
    · cases h
    · obtain rfl := Except.ok.inj h
      trivial

/-- What is packed fits into a slot. -/
theorem packed_fits {bytes : Int} (hsizes : Throughout definitions SizeFits typeName)
    (h : extentWithin definitions depth typeName = .ok (.packed bytes)) :
    1 ≤ bytes ∧ bytes ≤ slotBytes := by
  induction depth generalizing typeName with
  | zero => cases h
  | succ depth ih =>
    cases extentWithin_succ_iff.mp h with
    | elementary h hname hbytes => exact hsizes.self _ _ h hname hbytes
    | array _ _ _ _ _ hroom => exact (whole_of_arrayExtent hroom).elim
    | contract | enumeration => decide
    | valueType h hkind hunderlying hroom =>
      exact ih (hsizes.of_uses (.underlying h hkind hunderlying)) hroom
    | function => split <;> decide

theorem Names.unique {first second : Json} (h : Names definitions typeName first)
    (h' : Names definitions typeName second) : first = second := by
  obtain ⟨-, id, hid, hfirst⟩ := h
  obtain ⟨-, id', hid', hsecond⟩ := h'
  obtain rfl := Except.ok.inj (hid.symm.trans hid')
  exact Option.some.inj (hfirst.symm.trans hsecond)

/-- Whole slots are for the types that take them. -/
theorem whole_iff_takesSlots (h : extentWithin definitions depth typeName = .ok room) :
    room.Whole ↔ TakesSlots definitions typeName := by
  constructor
  · intro hwhole
    induction depth generalizing typeName with
    | zero => cases h
    | succ depth ih =>
      have hmeasured := extentWithin_succ_iff.mp h
      clear h
      cases hmeasured with
      | elementary | contract | enumeration | function => exact hwhole.elim
      | mapping h => exact .mapping h
      | dynamic h | array h => exact .array h
      | valueType h hkind hunderlying hroom => exact .valueType h hkind hunderlying (ih hroom)
      | struct h hkind => exact .struct h hkind
  · intro htakes
    -- a type is of one kind
    induction htakes generalizing depth room with
    | mapping | array | struct | valueType =>
      cases depth with
      | zero => cases h
      | succ depth =>
        cases extentWithin_succ_iff.mp h <;>
          grind [Names, HasType.unique, Names.unique, Extent.Whole, whole_of_arrayExtent]

/-- The slots of an array are no less than none. -/
theorem arrayExtent_fits {count : Int} {element : Extent} (h : arrayExtent count element = .ok room)
    (hcount : 0 ≤ count) (hfits : element.Fits) : room.Fits := by
  cases element with
  | slots each =>
    obtain rfl := Except.ok.inj h
    exact Int.mul_nonneg hcount hfits
  | packed bytes =>
    rw [arrayExtent] at h
    split at h
    · cases h
    · rename_i hdivides
      obtain rfl := Except.ok.inj h
      -- the slots are rounded up, as the quotient of the negative count is rounded down
      have hper : 0 ≤ slotBytes / bytes := Int.ediv_nonneg (by decide) (by have := hfits.1; omega)
      have hle : (-count).fdiv (slotBytes / bytes) ≤ 0 := by
        rw [Int.fdiv_eq_ediv_of_nonneg _ hper]
        exact Int.ediv_nonpos_of_nonpos_of_neg (by omega) (by omega)
      simp only [Extent.Fits]
      omega

/-- Types of elementary types that fit and of arrays of some length have room in the storage. -/
theorem extent_fits (hsizes : Throughout definitions SizeFits typeName)
    (hcounts : Throughout definitions CountFits typeName)
    (h : extentWithin definitions depth typeName = .ok room) : room.Fits := by
  induction depth generalizing typeName room with
  | zero => cases h
  | succ depth ih =>
    cases room with
    | packed bytes => exact packed_fits hsizes h
    | slots count =>
      have hmeasured := extentWithin_succ_iff.mp h
      clear h
      cases hmeasured with
      | mapping | dynamic => exact Int.one_nonneg
      | array h hlength hcount hbase helement hroom =>
        have huses : Uses definitions _ _ := .element h hlength hbase
        exact arrayExtent_fits hroom (hcounts.self _ h hlength hcount)
          (ih (hsizes.of_uses huses) (hcounts.of_uses huses) helement)
      | valueType h hkind hunderlying hroom =>
        have huses := Uses.underlying h hkind hunderlying
        exact ih (hsizes.of_uses huses) (hcounts.of_uses huses) hroom
      | struct h hkind hmembers hlayout =>
        -- the members fit, and the slots that they use are not fewer than none
        obtain ⟨entries, hentries, rfl⟩ := layOut_eq_ok_iff.mp hlayout
        refine (isLeast_slotsUsed fun entry hentry => ?_).1.1
        obtain ⟨member, hmember, -, used, hused, hne, hroom⟩ := exists_of_forall₂ hentries hentry
        have huses := Uses.member h hkind hmembers hmember hused hne
        exact ih (hsizes.of_uses huses) (hcounts.of_uses huses) hroom

/-! ### Layouts -/

/-- A declaration is laid out as a variable: under its identity, and with the extent of its type,
which is of whole slots for the types that take them. -/
def LaidOutAs (definitions : Definitions) (declared : Json) (v : Variable) : Prop :=
  declaredId declared = .ok v.id ∧ ∃ typeName, declaredType definitions declared = .ok typeName ∧
    Storage.extent definitions typeName = .ok v.extent ∧
    (v.extent.Whole ↔ TakesSlots definitions typeName)

theorem forall₂_laid {declarations : List Json} {entries : List (NodeId × Extent)}
    (h : List.Forall₂ (EntersAs definitions (extentWithin definitions depth)) declarations entries)
    (cursor : Cursor) :
    List.Forall₂ (LaidOutAs definitions) declarations (cursor.laid entries) := by
  induction h generalizing cursor with
  | nil => exact .nil
  | cons hentry _ ih =>
    obtain ⟨hid, typeName, htype, -, hroom⟩ := hentry
    exact .cons ⟨hid, typeName, htype, extent_eq_of_extentWithin hroom, whole_iff_takesSlots hroom⟩
      (ih _)

/-- **Layouts are packed.**  Let variables have distinct identities and types that are made of
elementary types of one to 32 bytes and of arrays that have no negative length.  Once they are laid
out they stand in the order of their declarations and have no bytes in common; what is packed lies
inside one slot and opens it only if it has to; mappings, arrays and structures take whole slots,
and share none; and the slots in use are the fewest that hold all variables.  A structure with these
members takes as many. -/
theorem packed_of_allocate {declarations : List Json} {ids : List NodeId} {allocation : Allocation}
    (hids : declarations.mapM declaredId = .ok ids) (hdistinct : ids.Nodup)
    (hsizes : ∀ declared ∈ declarations, ∀ typeName,
      declaredType definitions declared = .ok typeName → Throughout definitions SizeFits typeName)
    (hcounts : ∀ declared ∈ declarations, ∀ typeName,
      declaredType definitions declared = .ok typeName → Throughout definitions CountFits typeName)
    (h : allocate definitions declarations = .ok allocation) :
    ∃ laid : List Variable, List.Forall₂ (LaidOutAs definitions) declarations laid ∧
      allocation.places = laid.map (fun v => (v.id, v.place)) ∧ Packed laid ∧
      IsLeast {count : Int | 0 ≤ count ∧
        ∀ v ∈ laid, ∀ n ∈ v.place.bytes, 0 ≤ n ∧ n < slotBytes * count} allocation.slotsUsed ∧
      ∀ typeName referenced, Names definitions typeName referenced →
        HasType referenced "StructDefinition" → membersOf referenced = .ok declarations →
        Storage.extent definitions typeName = .ok (.slots allocation.slotsUsed) := by
  have hlayout := h
  obtain ⟨entries, hentries, rfl⟩ := layOut_eq_ok_iff.mp h
  have hfits : ∀ entry ∈ entries, entry.2.Fits := by
    intro entry hentry
    obtain ⟨declared, hmem, -, used, hused, -, hroom⟩ := exists_of_forall₂ hentries hentry
    exact extent_fits (hsizes declared hmem used hused) (hcounts declared hmem used hused) hroom
  -- identities that are distinct name the entries, so that the table holds each of them
  have hkeys : ids = entries.map Prod.fst := by
    refine Except.ok.inj (hids.symm.trans (mapM_eq_ok_iff.mpr ?_))
    exact List.forall₂_map_right_iff.mpr (hentries.imp fun _ _ hentry => hentry.1)
  refine ⟨Cursor.laid {} entries, forall₂_laid hentries {},
    @Cursor.places_placeAll {} entries (hkeys ▸ hdistinct), packed_laid hfits,
    isLeast_slotsUsed hfits, fun typeName referenced hnames hkind hmembers => ?_⟩
  exact extent_eq_of_extentWithin
    (extentWithin_succ_iff.mpr (.struct hnames hkind hmembers hlayout))

/-! ### A structure and its members -/

/-- An elementary type by its name. -/
def elementaryType (name : String) : Json :=
  .obj [("nodeType", .str "ElementaryTypeName"), ("name", .str name)]

/-- An array of a type, with its length in digits. -/
def arrayType (base : Json) (length : String) : Json :=
  .obj [("nodeType", .str "ArrayTypeName"), ("baseType", base),
    ("length", .obj [("value", .str length)])]

/-- An elementary type is made of nothing else. -/
theorem elementaryType_fits {name : String} {bytes : Int} (h : elementaryBytes name = .ok bytes)
    (hfits : 1 ≤ bytes ∧ bytes ≤ slotBytes) :
    Throughout definitions SizeFits (elementaryType name) ∧
      Throughout definitions CountFits (elementaryType name) := by
  have hkind : HasType (elementaryType name) "ElementaryTypeName" := rfl
  have hnone : ∀ used, ¬ Uses definitions (elementaryType name) used := by
    rintro used (⟨h, -, -⟩ | ⟨h, -, -⟩ | ⟨h, -, -, -, -, -⟩)
    · exact absurd (hkind.unique h) (by decide)
    · exact absurd (hkind.unique h.1) (by decide)
    · exact absurd (hkind.unique h.1) (by decide)
  refine ⟨.intro ?_ fun used hused => absurd hused (hnone used),
    .intro ?_ fun used hused => absurd hused (hnone used)⟩
  · intro name' bytes' _ hname hbytes
    obtain rfl := Json.str.inj hname
    obtain rfl := Except.ok.inj (h.symm.trans hbytes)
    exact hfits
  · intro count h
    exact absurd (hkind.unique h) (by decide)

/-- An array is made of what its elements are made of. -/
theorem arrayType_fits {base : Json} {length : String} {count : Int}
    (h : Json.readInt 0 length = .ok count) (hcount : 0 ≤ count)
    (hfits : Throughout definitions SizeFits base ∧ Throughout definitions CountFits base) :
    Throughout definitions SizeFits (arrayType base length) ∧
      Throughout definitions CountFits (arrayType base length) := by
  have hkind : HasType (arrayType base length) "ArrayTypeName" := rfl
  have hbase : ∀ used, Uses definitions (arrayType base length) used → used = base := by
    rintro used (⟨-, -, hbase⟩ | ⟨h, -, -⟩ | ⟨h, -, -, -, -, -⟩)
    · exact (Except.ok.inj hbase).symm
    · exact absurd (hkind.unique h.1) (by decide)
    · exact absurd (hkind.unique h.1) (by decide)
  refine ⟨.intro ?_ fun used hused => hbase used hused ▸ hfits.1,
    .intro ?_ fun used hused => hbase used hused ▸ hfits.2⟩
  · intro name bytes h
    exact absurd (hkind.unique h) (by decide)
  · intro count' _ _ hcount'
    obtain rfl := Except.ok.inj (h.symm.trans hcount')
    exact hcount

/-- Some members of a structure: an address, an array of three elements of 12 bytes and a flag. -/
def shelfMembers : List Json :=
  [.obj [("id", .int 1), ("typeName", elementaryType "address")],
   .obj [("id", .int 2), ("typeName", arrayType (elementaryType "uint96") "3")],
   .obj [("id", .int 3), ("typeName", elementaryType "bool")]]

/-- The structure. -/
def shelfDefinitions : Definitions :=
  [(.number 4, .obj [("nodeType", .str "StructDefinition"), ("members", .arr shelfMembers)])]

/-- A name for the structure. -/
def shelfType : Json :=
  .obj [("nodeType", .str "UserDefinedTypeName"), ("referencedDeclaration", .int 4)]

/-- The layout of the members. -/
def shelfLayout : Allocation := found (allocate shelfDefinitions shelfMembers)

theorem shelfMembers_fit : ∀ declared ∈ shelfMembers, ∀ typeName,
    declaredType shelfDefinitions declared = .ok typeName →
      Throughout shelfDefinitions SizeFits typeName ∧
        Throughout shelfDefinitions CountFits typeName := by
  have haddress : elementaryBytes "address" = .ok 20 := rfl
  have hnumber : elementaryBytes "uint96" = .ok 12 := rfl
  have hflag : elementaryBytes "bool" = .ok 1 := rfl
  have hlength : Json.readInt 0 "3" = .ok 3 := rfl
  rw [shelfMembers]
  simp only [List.forall_mem_cons]
  refine ⟨?_, ?_, ?_, nofun⟩
  · rintro _ ⟨⟩
    exact elementaryType_fits haddress (by decide)
  · rintro _ ⟨⟩
    exact arrayType_fits hlength (by decide) (elementaryType_fits hnumber (by decide))
  · rintro _ ⟨⟩
    exact elementaryType_fits hflag (by decide)

/-- The members of the structure take four slots: the array begins one, takes two, and ends one. -/
theorem shelf_packed : shelfLayout.slotsUsed = 4 ∧
    (∃ laid : List Variable, shelfLayout.places = laid.map (fun v => (v.id, v.place)) ∧
      Packed laid) ∧
    Storage.extent shelfDefinitions shelfType = .ok (.slots shelfLayout.slotsUsed) := by
  obtain ⟨laid, -, hplaces, hpacked, -, hstruct⟩ := @packed_of_allocate shelfDefinitions
    shelfMembers [.number 1, .number 2, .number 3] shelfLayout rfl (by decide)
    (fun declared hmem typeName h => (shelfMembers_fit declared hmem typeName h).1)
    (fun declared hmem typeName h => (shelfMembers_fit declared hmem typeName h).2)
    (eq_ok_found (by decide +kernel))
  exact ⟨by decide +kernel, ⟨laid, hplaces, hpacked⟩,
    hstruct shelfType _ ⟨rfl, .number 4, rfl, rfl⟩ rfl rfl⟩

end TraceDebugger.Storage
