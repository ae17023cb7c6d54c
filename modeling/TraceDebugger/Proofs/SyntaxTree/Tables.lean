/-
Tables by identity.

* `valueOf?_setEntry_of_ne` — putting an entry changes that entry alone;
* `mem_byId` — the nodes of a tree by identity are nodes of the tree, each under its own identity;
* `valueOf?_mapM` — an entry of a table that is read entry by entry was read off the entry of the
  same key.
-/
import TraceDebugger.Proofs.Readings
import TraceDebugger.SyntaxTree.Scope

namespace TraceDebugger.SyntaxTree

variable {κ α β : Type} [DecidableEq κ]

theorem valueOf?_cons (key : κ) (entry : κ × α) (table : List (κ × α)) :
    valueOf? key (entry :: table) = if entry.1 = key then some entry.2 else valueOf? key table := by
  by_cases h : entry.1 = key <;> simp [valueOf?, h]

/-- What a table has under a key is an entry of it. -/
theorem mem_of_valueOf? {key : κ} {value : α} {table : List (κ × α)}
    (h : valueOf? key table = some value) : (key, value) ∈ table := by
  induction table with
  | nil => cases h
  | cons entry table ih =>
    rw [valueOf?_cons] at h
    by_cases hkey : entry.1 = key
    · rw [if_pos hkey] at h
      obtain rfl := Option.some.inj h
      subst hkey
      exact List.mem_cons_self
    · rw [if_neg hkey] at h
      exact List.mem_cons_of_mem _ (ih h)

@[simp] theorem valueOf?_setEntry_self (key : κ) (value : α) (table : List (κ × α)) :
    valueOf? key (setEntry key value table) = some value := by
  induction table with
  | nil => simp [setEntry, valueOf?_cons]
  | cons entry table ih =>
    by_cases h : entry.1 = key <;> simp [setEntry, valueOf?_cons, h, ih]

theorem valueOf?_setEntry_of_ne {key other : κ} (h : other ≠ key) (value : α)
    (table : List (κ × α)) :
    valueOf? other (setEntry key value table) = valueOf? other table := by
  induction table with
  | nil => simp [setEntry, valueOf?_cons, h.symm]
  | cons entry table ih =>
    by_cases hkey : entry.1 = key
    · simp [setEntry, valueOf?_cons, hkey, h.symm]
    · simp [setEntry, valueOf?_cons, hkey, ih]

/-- A key of a table is found in it. -/
theorem exists_valueOf?_of_mem {key : κ} {value : α} {table : List (κ × α)}
    (h : (key, value) ∈ table) : ∃ found, valueOf? key table = some found := by
  induction table with
  | nil => cases h
  | cons entry table ih =>
    rw [valueOf?_cons]
    by_cases hkey : entry.1 = key
    · exact ⟨entry.2, if_pos hkey⟩
    · obtain rfl | h := List.mem_cons.mp h
      · exact absurd rfl hkey
      · rw [if_neg hkey]
        exact ih h

/-- A new key is put at the end. -/
theorem setEntry_of_not_mem {key : κ} {table : List (κ × α)} (h : key ∉ table.map Prod.fst)
    (value : α) : setEntry key value table = table ++ [(key, value)] := by
  induction table with
  | nil => rfl
  | cons entry table ih =>
    obtain ⟨hne, hrest⟩ := List.ne_and_not_mem_of_not_mem_cons h
    rw [setEntry, if_neg (Ne.symm hne), ih hrest, List.cons_append]

theorem mem_setEntry {key : κ} {value : α} {table : List (κ × α)} {entry : κ × α}
    (h : entry ∈ setEntry key value table) : entry = (key, value) ∨ entry ∈ table := by
  induction table with
  | nil => exact .inl (List.mem_singleton.mp h)
  | cons first table ih =>
    rw [setEntry] at h
    by_cases hkey : first.1 = key
    · rw [if_pos hkey] at h
      obtain rfl | h := List.mem_cons.mp h
      · exact .inl (Prod.ext hkey rfl)
      · exact .inr (List.mem_cons_of_mem _ h)
    · rw [if_neg hkey] at h
      obtain rfl | h := List.mem_cons.mp h
      · exact .inr List.mem_cons_self
      · exact (ih h).imp id (List.mem_cons_of_mem _)

/-- A table in which every key stands once is kept so. -/
theorem nodup_setEntry {table : List (κ × α)} (h : (table.map Prod.fst).Nodup) (key : κ)
    (value : α) : ((setEntry key value table).map Prod.fst).Nodup := by
  induction table with
  | nil => exact List.nodup_cons.mpr ⟨List.not_mem_nil, List.nodup_nil⟩
  | cons first table ih =>
    obtain ⟨hfirst, hrest⟩ := List.nodup_cons.mp h
    rw [setEntry]
    by_cases hkey : first.1 = key
    · subst hkey
      rw [if_pos rfl]
      exact List.nodup_cons.mpr ⟨hfirst, hrest⟩
    · rw [if_neg hkey]
      refine List.nodup_cons.mpr ⟨fun hmem => ?_, ih hrest⟩
      obtain ⟨entry, hentry, heq⟩ := List.mem_map.mp hmem
      obtain rfl | hentry := mem_setEntry hentry
      · exact hkey heq.symm
      · exact hfirst (heq ▸ List.mem_map_of_mem hentry)

/-- An entry of a table that is read entry by entry, keys staying as they are, was read off the
entry of the same key. -/
theorem valueOf?_mapM {f : κ × α → Except Fault (κ × β)}
    (hkeys : ∀ entry read, f entry = .ok read → read.1 = entry.1) {table : List (κ × α)}
    {reads : List (κ × β)} (hreads : table.mapM f = .ok reads) {key : κ} {value : β}
    (h : valueOf? key reads = some value) :
    ∃ source, valueOf? key table = some source ∧ f (key, source) = .ok (key, value) := by
  have hall := mapM_eq_ok_iff.mp hreads
  clear hreads
  induction hall with
  | nil => cases h
  | @cons entry read table reads hread _ ih =>
    obtain ⟨own, source⟩ := entry
    obtain ⟨own', found⟩ := read
    obtain rfl : own' = own := hkeys _ _ hread
    rw [valueOf?_cons] at h ⊢
    by_cases hkey : own' = key
    · rw [if_pos hkey] at h ⊢
      obtain rfl := Option.some.inj h
      subst hkey
      exact ⟨source, rfl, hread⟩
    · rw [if_neg hkey] at h ⊢
      exact ih h

/-! ### The nodes of a tree -/

/-- The nodes by identity are nodes of the tree, each under its own identity. -/
theorem mem_byId {tree : SyntaxTree} {entry : NodeId × Node} (h : entry ∈ tree.byId) :
    entry.2 ∈ tree.nodes ∧ entry.2.id = entry.1 := by
  -- a node that is put comes from the nodes, and the rest was there before
  have hfold : ∀ (nodes : List Node) (table : List (NodeId × Node)),
      entry ∈ nodes.foldl (fun table node => setEntry node.id node table) table →
        entry.2 ∈ nodes ∧ entry.2.id = entry.1 ∨ entry ∈ table := by
    intro nodes
    induction nodes with
    | nil => exact fun table h => .inr h
    | cons node nodes ih =>
      intro table h
      rw [List.foldl_cons] at h
      obtain ⟨hmem, hid⟩ | h := ih _ h
      · exact .inl ⟨List.mem_cons_of_mem _ hmem, hid⟩
      · obtain rfl | h := mem_setEntry h
        · exact .inl ⟨List.mem_cons_self, rfl⟩
        · exact .inr h
  obtain h | h := hfold tree.nodes [] h
  · exact h
  · cases h

/-- A contract of a tree is a node of the tree, under its own identity. -/
theorem contract_mem {tree : SyntaxTree} {id : NodeId} {contract : Node}
    (h : valueOf? id tree.contracts = some contract) :
    contract ∈ tree.nodes ∧ contract.id = id :=
  mem_byId (List.mem_filter.mp (mem_of_valueOf? h)).1

end TraceDebugger.SyntaxTree
