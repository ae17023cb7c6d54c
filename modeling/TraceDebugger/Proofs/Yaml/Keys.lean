/-
Keys of mappings.

A mapping that is read from a document has each of its keys once: entries are put into it one after
the other, and a key that is there keeps its place.

* `find?_setKey` — what an entry that is put into a mapping changes;
* `distinctKeys_ofEntries` — the mapping of some entries has each key once, and it is these entries
  if they have distinct keys (`ofEntries_eq_self`);
* `proper_parse` — so has every mapping of a document that is read.
-/
import TraceDebugger.Proofs.Readings
import TraceDebugger.Yaml.Reader

namespace TraceDebugger.Yaml

/-- No two entries have the same key. -/
def DistinctKeys (entries : List (Scalar × Yaml)) : Prop :=
  entries.Pairwise fun entry later => entry.1.sameKey later.1 = false

/-- Every mapping in a value has each of its keys once. -/
inductive Proper : Yaml → Prop
  | scalar (value : Scalar) : Proper (.scalar value)
  | list {items : List Yaml} (h : ∀ item ∈ items, Proper item) : Proper (.list items)
  | map {entries : List (Scalar × Yaml)} (hkeys : DistinctKeys entries)
    (h : ∀ entry ∈ entries, Proper entry.2) : Proper (.map entries)

variable {entries : List (Scalar × Yaml)} {key : Scalar} {value : Yaml}

/-! ### Entries of a mapping -/

theorem sameKey_self (key : Scalar) : key.sameKey key = true := by
  simp [Scalar.sameKey]

/-- Only a text has the canonical form of a text. -/
theorem canonical_eq_str_iff {key : Scalar} {text : String} :
    key.canonical = .str text ↔ key = .str text := by
  cases key with
  | fraction x => cases h : x.whole? <;> simp [Scalar.canonical, h]
  | null | bool | int | str | bytes | day | moment => simp [Scalar.canonical]

theorem sameKey_str_iff {key : Scalar} {text : String} :
    key.sameKey (.str text) = true ↔ key = .str text := by
  rw [Scalar.sameKey, Bool.or_eq_true, beq_iff_eq, Bool.and_eq_true, beq_iff_eq]
  constructor
  · rintro (h | ⟨hsome, hnone⟩)
    · exact canonical_eq_str_iff.mp h
    · -- a text is no instant
      rw [hnone] at hsome
      cases hsome
  · rintro rfl
    exact .inl rfl

theorem mem_setKey {entry : Scalar × Yaml} (h : entry ∈ setKey key value entries) :
    entry ∈ entries ∨ entry.2 = value ∧ (entry.1 = key ∨ ∃ old, (entry.1, old) ∈ entries) := by
  induction entries with
  | nil =>
    obtain rfl : entry = (key, value) := by simpa [setKey] using h
    exact .inr ⟨rfl, .inl rfl⟩
  | cons first rest ih =>
    obtain ⟨k, old⟩ := first
    rw [setKey] at h
    split at h
    · obtain rfl | h := List.mem_cons.mp h
      · exact .inr ⟨rfl, .inr ⟨old, List.mem_cons_self⟩⟩
      · exact .inl (List.mem_cons_of_mem _ h)
    · obtain rfl | h := List.mem_cons.mp h
      · exact .inl List.mem_cons_self
      · rcases ih h with hmem | ⟨hvalue, hkey | ⟨other, hmem⟩⟩
        · exact .inl (List.mem_cons_of_mem _ hmem)
        · exact .inr ⟨hvalue, .inl hkey⟩
        · exact .inr ⟨hvalue, .inr ⟨other, List.mem_cons_of_mem _ hmem⟩⟩

theorem distinctKeys_setKey (h : DistinctKeys entries) (key : Scalar) (value : Yaml) :
    DistinctKeys (setKey key value entries) := by
  induction entries with
  | nil => exact List.pairwise_singleton _ _
  | cons first rest ih =>
    obtain ⟨k, old⟩ := first
    obtain ⟨hfirst, hrest⟩ := List.pairwise_cons.mp h
    rw [setKey]
    split
    · exact List.pairwise_cons.mpr ⟨hfirst, hrest⟩
    case isFalse hkey =>
      refine List.pairwise_cons.mpr ⟨fun entry hentry => ?_, ih hrest⟩
      rcases mem_setKey hentry with hmem | ⟨-, hnew | ⟨other, hmem⟩⟩
      · exact hfirst entry hmem
      · rw [hnew]
        exact Bool.eq_false_iff.mpr hkey
      · exact hfirst (entry.1, other) hmem

/-- The mapping of some entries has each key once. -/
theorem distinctKeys_ofEntries (entries : List (Scalar × Yaml)) :
    DistinctKeys (ofEntries entries) := by
  have hfold : ∀ (rest table : List (Scalar × Yaml)), DistinctKeys table →
      DistinctKeys (rest.foldl (fun table entry => setKey entry.1 entry.2 table) table) := by
    intro rest
    induction rest with
    | nil => exact fun _ h => h
    | cons entry rest ih => exact fun table h => ih _ (distinctKeys_setKey h _ _)
  exact hfold entries [] .nil

theorem setKey_of_new (h : ∀ entry ∈ entries, entry.1.sameKey key = false) (value : Yaml) :
    setKey key value entries = entries ++ [(key, value)] := by
  induction entries with
  | nil => rfl
  | cons first rest ih =>
    obtain ⟨k, old⟩ := first
    have hk : ¬ k.sameKey key = true := by
      rw [h _ List.mem_cons_self]
      exact Bool.false_ne_true
    rw [setKey, if_neg hk, ih fun entry hentry => h entry (List.mem_cons_of_mem _ hentry),
      List.cons_append]

/-- Entries with distinct keys are their own mapping. -/
theorem ofEntries_eq_self (h : DistinctKeys entries) : ofEntries entries = entries := by
  have hfold : ∀ (rest table : List (Scalar × Yaml)), DistinctKeys (table ++ rest) →
      rest.foldl (fun table entry => setKey entry.1 entry.2 table) table = table ++ rest := by
    intro rest
    induction rest with
    | nil => exact fun table _ => (List.append_nil table).symm
    | cons entry rest ih =>
      intro table htable
      have hnew : ∀ other ∈ table, other.1.sameKey entry.1 = false := fun other hother =>
        (List.pairwise_append.mp htable).2.2 other hother entry List.mem_cons_self
      rw [List.foldl_cons, setKey_of_new hnew, ih, List.append_assoc]
      · rfl
      · rwa [List.append_assoc]
  exact hfold entries [] h

theorem mem_ofEntries {entry : Scalar × Yaml} (h : entry ∈ ofEntries entries) :
    ∃ other ∈ entries, other.2 = entry.2 := by
  have hfold : ∀ (rest table : List (Scalar × Yaml)),
      entry ∈ rest.foldl (fun table entry => setKey entry.1 entry.2 table) table →
        entry ∈ table ∨ ∃ other ∈ rest, other.2 = entry.2 := by
    intro rest
    induction rest with
    | nil => exact fun _ h => .inl h
    | cons first rest ih =>
      intro table h
      rcases ih _ h with h | ⟨other, hmem, hvalue⟩
      · rcases mem_setKey h with h | ⟨hvalue, -⟩
        · exact .inl h
        · exact .inr ⟨first, List.mem_cons_self, hvalue.symm⟩
      · exact .inr ⟨other, List.mem_cons_of_mem _ hmem, hvalue⟩
  exact (hfold entries [] h).resolve_left List.not_mem_nil

/-- A text is found with the value that was put in for it, and any other one as before. -/
theorem find?_setKey (text other : String) (value : Yaml) (entries : List (Scalar × Yaml)) :
    find? (.str other) (setKey (.str text) value entries)
      = if other = text then some value else find? (.str other) entries := by
  induction entries with
  | nil =>
    by_cases h : other = text
    · simp [setKey, find?, sameKey_str_iff, h]
    · simp [setKey, find?, sameKey_str_iff, h, Ne.symm h]
  | cons first rest ih =>
    obtain ⟨k, old⟩ := first
    by_cases hk : k = .str text
    · subst hk
      by_cases h : other = text
      · simp [setKey, find?, sameKey_str_iff, h]
      · simp [setKey, find?, sameKey_str_iff, h, Ne.symm h]
    · by_cases ho : k = .str other
      · subst ho
        have h : other ≠ text := fun heq => hk (congrArg Scalar.str heq)
        simp [setKey, find?, sameKey_str_iff, h]
      · simp [setKey, find?, sameKey_str_iff, hk, ho, ih]

/-- A text that is no key is not found. -/
theorem find?_eq_none {text : String} (h : ∀ entry ∈ entries, entry.1 ≠ .str text) :
    find? (.str text) entries = none := by
  induction entries with
  | nil => rfl
  | cons first rest ih =>
    obtain ⟨k, old⟩ := first
    have hk : k ≠ .str text := h _ List.mem_cons_self
    have hrest := ih fun entry hentry => h entry (List.mem_cons_of_mem _ hentry)
    simp [find?, sameKey_str_iff, hk, hrest]

/-- What is found under a key is the value of an entry. -/
theorem exists_of_find? (h : find? key entries = some value) :
    ∃ entry ∈ entries, entry.2 = value := by
  induction entries with
  | nil => cases h
  | cons first rest ih =>
    obtain ⟨k, old⟩ := first
    rw [find?] at h
    split at h
    · exact ⟨(k, old), List.mem_cons_self, Option.some.inj h⟩
    · obtain ⟨entry, hentry, hvalue⟩ := ih h
      exact ⟨entry, List.mem_cons_of_mem _ hentry, hvalue⟩

/-! ### Values that are read -/

theorem proper_ofEntries (h : ∀ entry ∈ entries, entry.2.Proper) :
    (map (ofEntries entries)).Proper :=
  .map (distinctKeys_ofEntries entries) fun entry hentry => by
    obtain ⟨other, hmem, hvalue⟩ := mem_ofEntries hentry
    exact hvalue ▸ h other hmem

mutual

/-- The value of an outline has each key once in every mapping. -/
theorem proper_value {value : Yaml} : ∀ outline : Outline, outline.value = .ok value → value.Proper
  | .leaf leaf, h => by
    obtain ⟨scalar, -, rfl⟩ := exists_of_map_eq_ok h
    exact .scalar scalar
  | .list items, h => by
    obtain ⟨values, hvalues, rfl⟩ := exists_of_map_eq_ok h
    exact .list (proper_itemValues items hvalues)
  | .map outlines, h => by
    obtain ⟨found, hfound, rfl⟩ := exists_of_map_eq_ok h
    exact proper_ofEntries (proper_entryValues outlines hfound)

theorem proper_itemValues {values : List Yaml} :
    ∀ items : List Outline, itemValues items = .ok values → ∀ value ∈ values, value.Proper
  | [], h => by
    obtain rfl : [] = values := Except.ok.inj h
    exact List.forall_mem_nil _
  | item :: rest, h => by
    rw [itemValues] at h
    obtain ⟨value, hvalue, h⟩ := exists_of_bind_eq_ok h
    obtain ⟨others, hothers, h⟩ := exists_of_bind_eq_ok h
    obtain rfl := Except.ok.inj h
    exact List.forall_mem_cons.mpr ⟨proper_value item hvalue, proper_itemValues rest hothers⟩

theorem proper_entryValues {found : List (Scalar × Yaml)} :
    ∀ outlines : List (Leaf × Outline), entryValues outlines = .ok found →
      ∀ entry ∈ found, entry.2.Proper
  | [], h => by
    obtain rfl : [] = found := Except.ok.inj h
    exact List.forall_mem_nil _
  | (leaf, outline) :: rest, h => by
    rw [entryValues] at h
    obtain ⟨key, -, h⟩ := exists_of_bind_eq_ok h
    obtain ⟨value, hvalue, h⟩ := exists_of_bind_eq_ok h
    obtain ⟨others, hothers, h⟩ := exists_of_bind_eq_ok h
    obtain rfl := Except.ok.inj h
    exact List.forall_mem_cons.mpr ⟨proper_value outline hvalue, proper_entryValues rest hothers⟩

end

/-- **A document that is read has each key once in every mapping.** -/
theorem proper_parse {text : String} {document : Yaml} (h : parse text = .ok document) :
    document.Proper := by
  rw [parse] at h
  split at h
  case h_1 outline _ => exact proper_value outline h
  case h_2 => cases h

end TraceDebugger.Yaml
