/-
Sections that are written in block form.

The text of a section holds its name and then a line for each entry.  Every line is read as the name
and the value that it was written for, and so the text is read as the document of the section.

* `Format.ReadInvertsWrite` — what is written for a section is read as its document;
* `blockEntries_lines` — the lines of a section are read as its entries;
* `blockFormat_readInvertsWrite` — so it is in block form.
-/
import TraceDebugger.Proofs.Yaml.Entries
import TraceDebugger.Proofs.Yaml.Keys
import TraceDebugger.Yaml.Block

namespace TraceDebugger.Yaml

variable {entries : List (String × Simple)} {name : String} {value : Simple} {part : Section}

/-- The names in a section are keys that stand for texts, and each entry has another one. -/
structure Section.Named (part : Section) : Prop where
  key : IsKey part.name.toList
  keys : ∀ entry ∈ part.entries, IsKey entry.1.toList
  distinct : (part.entries.map Prod.fst).Nodup
  ne_nil : part.entries ≠ []

/-- What is written for a section is read as its document. -/
def Format.ReadInvertsWrite (format : Format) : Prop :=
  ∀ part : Section, part.Named → format.read (format.write part) = .ok part.document

/-! ### Lines -/

/-- Every entry has a key that stands for a text. -/
def HaveKeys (entries : List (String × Simple)) : Prop := ∀ entry ∈ entries, IsKey entry.1.toList

/-- The lines of a section. -/
def linesOf (entries : List (String × Simple)) : List Char :=
  entries.flatMap fun entry => (entryLine entry.1 entry.2).toList

/-- What is written for a value after its key. -/
def written (name : String) (value : Simple) : List Char := (value.write (name.length + 4) 4).toList

theorem linesOf_cons (name : String) (value : Simple) (rest : List (String × Simple)) :
    linesOf ((name, value) :: rest) = List.replicate 2 ' ' ++
      (name.toList ++ ':' :: ' ' :: (written name value ++ '\n' :: linesOf rest)) := by
  have hline : (entryLine name value).toList
      = List.replicate 2 ' ' ++ (name.toList ++ ':' :: ' ' :: (written name value ++ ['\n'])) := by
    simp only [entryLine, String.toList_append, List.append_assoc]
    rfl
  rw [linesOf, List.flatMap_cons, hline]
  simp only [List.append_assoc, List.cons_append, List.nil_append]
  rfl

theorem follows_linesOf (hall : HaveKeys entries) : Follows 3 (linesOf entries) := by
  cases entries with
  | nil => exact .nil
  | cons entry rest =>
    obtain ⟨c, tail, hname, hc⟩ := (hall entry List.mem_cons_self).exists_cons
    rw [← Prod.mk.eta (p := entry), linesOf_cons, hname]
    exact .entry (by decide) (by decide) hc.inked (IsKey.ne_of_head hc (by decide))
      (IsKey.ne_of_head hc (by decide))

theorem lineStart_linesOf (h : IsKey name.toList) (value : Simple) (rest : List (String × Simple)) :
    lineStart (linesOf ((name, value) :: rest))
      = { rest := name.toList ++ ':' :: ' ' :: (written name value ++ '\n' :: linesOf rest)
          column := 2 } := by
  obtain ⟨c, tail, hname, hc⟩ := h.exists_cons
  rw [linesOf_cons, hname]
  exact lineStart_entry hc.inked (IsKey.ne_of_head hc (by decide)) 2 _

/-- The value of a line is read up to the next one. -/
theorem blockValue_written (value : Simple) (hall : HaveKeys entries) (name : String)
    (column fuel : ℕ) (hcolumn : 2 ≤ column) :
    ∃ leaf after, leaf.value = .ok value.scalar ∧ blockValue (fuel + 2) (2 : ℕ) true
        { rest := ' ' :: (written name value ++ '\n' :: linesOf entries), column, fresh := false }
      = some (.leaf leaf, after) ∧ after.next = lineStart (linesOf entries) := by
  have hdenotes : Denotes ((2 : ℕ) + 1) (written name value) value.scalar :=
    denotes_write (by decide) (by decide) (by decide) _ value
  exact blockValue_denotes hdenotes (follows_linesOf hall) (by omega) fuel

/-- Outlines stand for the entries of a section. -/
def StandFor (outlines : List (Leaf × Outline)) (entries : List (String × Simple)) : Prop :=
  entryValues outlines = .ok (entries.map fun entry => (.str entry.1, .scalar entry.2.scalar))

theorem StandFor.nil : StandFor [] [] := rfl

theorem StandFor.cons {outlines : List (Leaf × Outline)} (h : StandFor outlines entries)
    (hkey : IsKey name.toList) {leaf : Leaf} (hleaf : leaf.value = .ok value.scalar) :
    StandFor ((nameLeaf name.toList, .leaf leaf) :: outlines) ((name, value) :: entries) := by
  rw [StandFor, entryValues, hkey.value_nameLeaf, bind_of_eq_ok rfl, Outline.value, hleaf,
    String.ofList_toList]
  rw [StandFor] at h
  rw [h]
  rfl

/-- **The lines of a section are read as its entries.** -/
theorem blockEntries_lines (hall : HaveKeys ((name, value) :: entries))
    {fuel : ℕ} (hfuel : entries.length + 3 ≤ fuel) (before : List (Leaf × Outline)) :
    ∃ outlines, StandFor outlines ((name, value) :: entries) ∧
      blockEntries fuel 2 before (lineStart (linesOf ((name, value) :: entries)))
        = some (.map (before ++ outlines), lineStart []) := by
  -- the reader has entries before it, so the induction carries them
  induction entries generalizing name value fuel before with
  | nil =>
    obtain ⟨fuel, rfl⟩ : ∃ n, fuel = n + 3 := ⟨fuel - 3, by simp at hfuel; omega⟩
    have hkey : IsKey name.toList := hall _ List.mem_cons_self
    obtain ⟨leaf, after, hleaf, hread, hafter⟩ := blockValue_written value (List.forall_mem_nil _)
      name (2 + name.toList.length + 1) fuel (by omega)
    refine ⟨[(nameLeaf name.toList, .leaf leaf)], StandFor.nil.cons hkey hleaf, ?_⟩
    rw [lineStart_linesOf hkey, blockEntries_last hkey rfl hread hafter]
  | cons next rest ih =>
    obtain ⟨fuel, rfl⟩ : ∃ n, fuel = n + 3 := ⟨fuel - 3, by simp at hfuel; omega⟩
    have hkey : IsKey name.toList := hall _ List.mem_cons_self
    have hrest : HaveKeys (next :: rest) := fun entry hentry =>
      hall entry (List.mem_cons_of_mem _ hentry)
    have hnext : IsKey next.1.toList := hrest next List.mem_cons_self
    obtain ⟨leaf, after, hleaf, hread, hafter⟩ := blockValue_written value hrest name
      (2 + name.toList.length + 1) fuel (by omega)
    have hstart := lineStart_linesOf hnext next.2 rest
    rw [Prod.mk.eta] at hstart
    rw [hstart] at hafter
    have hlength : rest.length + 3 ≤ fuel + 2 := by
      rw [List.length_cons] at hfuel
      omega
    have hpair : HaveKeys ((next.1, next.2) :: rest) := hrest
    obtain ⟨outlines, hstand, hothers⟩ :=
      ih hpair hlength (before ++ [(nameLeaf name.toList, .leaf leaf)])
    rw [Prod.mk.eta] at hstand hothers
    rw [hstart] at hothers
    refine ⟨(nameLeaf name.toList, .leaf leaf) :: outlines, hstand.cons hkey hleaf, ?_⟩
    rw [lineStart_linesOf hkey, blockEntries_next hkey rfl hread hnext hafter, hothers,
      List.append_assoc]
    rfl

/-- **The lines of a section are read as its mapping.** -/
theorem blockValue_lines (hall : HaveKeys entries) (hne : entries ≠ []) {fuel : ℕ}
    (hfuel : entries.length + 3 ≤ fuel) (column : ℕ) (indentless : Bool) :
    ∃ outlines, StandFor outlines entries ∧ blockValue fuel (0 : ℕ) indentless
        { rest := '\n' :: linesOf entries, column, fresh := false }
      = some (.map outlines, lineStart []) := by
  obtain ⟨⟨name, value⟩, rest, rfl⟩ := List.exists_cons_of_ne_nil hne
  rw [List.length_cons] at hfuel
  obtain ⟨fuel, rfl⟩ : ∃ n, fuel = n + 1 := ⟨fuel - 1, by omega⟩
  have hkey : IsKey name.toList := hall _ List.mem_cons_self
  have hlines := lineStart_linesOf hkey value rest
  have hnext : Mark.next { rest := '\n' :: linesOf ((name, value) :: rest), column, fresh := false }
      = lineStart (linesOf ((name, value) :: rest)) := rfl
  rw [blockValue_name hkey rfl (hnext.trans hlines) (by decide) indentless, ← hlines]
  exact blockEntries_lines hall (by omega) []

/-! ### Documents -/

theorem toList_write (h : part.entries ≠ []) :
    part.write.toList = part.name.toList ++ ':' :: '\n' :: linesOf part.entries := by
  have hcolon : ":\n".toList = [':', '\n'] := rfl
  have hempty : ¬ part.entries.isEmpty = true := by simpa using h
  rw [Section.write, if_neg hempty, String.toList_append, String.toList_append, String.toList_join,
    List.flatMap_map, hcolon, linesOf, List.append_assoc, List.cons_append, List.cons_append,
    List.nil_append]

theorem printed_linesOf (hall : HaveKeys entries) : ∀ c ∈ linesOf entries, Printed c := by
  induction entries with
  | nil => exact nofun
  | cons entry rest ih =>
    obtain ⟨name, value⟩ := entry
    have hkey : IsKey name.toList := hall _ List.mem_cons_self
    have hwritten : Denotes 0 (written name value) value.scalar :=
      denotes_write (by decide) (by decide) (by decide) _ value
    have hrest := ih fun entry hentry => hall entry (List.mem_cons_of_mem _ hentry)
    have hspaces : ∀ c ∈ List.replicate 2 ' ', Printed c := fun c hc => by
      rw [List.eq_of_mem_replicate hc]
      exact .inr rfl
    rw [linesOf_cons]
    simp only [List.forall_mem_append, List.forall_mem_cons]
    exact ⟨hspaces, hkey.printed, by decide, by decide, hwritten.printed, by decide, hrest⟩

/-- Each entry has a line. -/
theorem length_le_length_linesOf (entries : List (String × Simple)) :
    entries.length ≤ (linesOf entries).length := by
  induction entries with
  | nil => exact Nat.le_refl 0
  | cons entry rest ih =>
    obtain ⟨name, value⟩ := entry
    simp only [linesOf_cons, List.length_append, List.length_cons]
    omega

/-- Different names make distinct keys. -/
theorem distinctKeys_mapping (h : (part.entries.map Prod.fst).Nodup) :
    DistinctKeys part.mapping := by
  rw [List.Nodup, List.pairwise_map] at h
  refine List.pairwise_map.mpr (h.imp fun hne => ?_)
  rw [← Bool.not_eq_true, sameKey_str_iff]
  exact fun heq => hne (Scalar.str.inj heq)

/-- **What is written in block form is read as the document of the section.** -/
theorem blockFormat_readInvertsWrite : blockFormat.ReadInvertsWrite := by
  intro part h
  have hprinted : ∀ c ∈ part.write.toList, Printed c := by
    rw [toList_write h.ne_nil]
    simp only [List.forall_mem_append, List.forall_mem_cons]
    exact ⟨h.key.printed, by decide, by decide, printed_linesOf h.keys⟩
  have hlength := length_le_length_linesOf part.entries
  obtain ⟨outlines, hstand, hvalue⟩ :
      ∃ outlines, StandFor outlines part.entries ∧
        blockValue (2 * part.write.toList.length + 2) (0 : ℕ) true
          { rest := '\n' :: linesOf part.entries, column := 0 + part.name.toList.length + 1
            fresh := false }
          = some (.map outlines, lineStart []) := by
    refine blockValue_lines h.keys h.ne_nil ?_ _ true
    rw [toList_write h.ne_nil, List.length_append, List.length_cons, List.length_cons]
    omega
  have houtline : outline? part.write = some (.map [(nameLeaf part.name.toList, .map outlines)]) :=
    outline?_of_name hprinted h.key (toList_write h.ne_nil) rfl
      (blockEntries_last h.key rfl hvalue rfl true)
  have hentries : entryValues [(nameLeaf part.name.toList, .map outlines)]
      = .ok [(.str part.name, .map part.mapping)] := by
    rw [entryValues, h.key.value_nameLeaf, bind_of_eq_ok rfl, Outline.value, hstand,
      String.ofList_toList]
    -- a mapping with distinct keys is kept as it is
    exact congrArg (fun entries => Except.ok [(Scalar.str part.name, Yaml.map entries)])
      (ofEntries_eq_self (distinctKeys_mapping h.distinct))
  show parse part.write = .ok part.document
  rw [parse, houtline]
  simp only [Outline.value, hentries]
  rfl

end TraceDebugger.Yaml
