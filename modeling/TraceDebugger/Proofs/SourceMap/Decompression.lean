/-
Compressed source maps are read back.

An entry may be written after another one in many ways: each of its fields is written out, or is
left blank where it repeats the field of the entry before, and blank fields at the end may be left
out (`SpellsEntry`).  However the entries of a source map are written, the reader finds them.

* `SpellsField.field?_eq` — what the reader makes of a field;
* `SpellsEntry.exists_splitBy` — the fields of an entry are found again in its text;
* `SpellsMap.entriesOfParts` — an entry after the other is read;
* `parse_of_spellsMap` — the main result.
-/
import TraceDebugger.Proofs.Text.Decimal
import TraceDebugger.SourceMap.Parser

namespace TraceDebugger.SourceMap

open Text

/-- How a field may be written, `none` if it is left out: in its own text, or left blank if it is
the same as before. -/
inductive SpellsField {α : Type} (text : α → List Char) (previous value : α) :
    Option (List Char) → Prop
  | text : SpellsField text previous value (some (text value))
  | blank {field : List Char} (same : value = previous) (hb : allBlank field = true) :
    SpellsField text previous value (some field)
  | missing (same : value = previous) : SpellsField text previous value none

/-- The mark of a jump as text. -/
def markText (jump : Jump) : List Char := jump.mark.toList

/-- The fields by which an entry may be written after another one. -/
structure SpellsEntry (previous entry : MapEntry) (fields : List (List Char)) : Prop where
  offset : SpellsField decimal previous.offset entry.offset fields[0]?
  length : SpellsField decimal previous.length entry.length fields[1]?
  fileIndex : SpellsField decimal previous.fileIndex entry.fileIndex fields[2]?
  jump : SpellsField markText previous.jump entry.jump fields[3]?
  modifierDepth : SpellsField decimal previous.modifierDepth entry.modifierDepth fields[4]?
  length_le : fields.length ≤ 5

/-- The parts in which entries may be written after an entry. -/
inductive SpellsMap : MapEntry → List MapEntry → List (List Char) → Prop
  | nil {previous : MapEntry} : SpellsMap previous [] []
  | cons {previous entry : MapEntry} {entries : List MapEntry} {fields parts : List (List Char)}
    (first : SpellsEntry previous entry fields) (rest : SpellsMap entry entries parts) :
    SpellsMap previous (entry :: entries) (joinWith ':' fields :: parts)

/-! ### Fields -/

theorem not_isBlank_of_mem_decimal {n : Int} {c : Char} (h : c ∈ decimal n) :
    isBlank c = false := by
  have houtside : ∀ range ∈ blankRanges, range.2 < 48 ∨ 57 < range.1 := by decide
  rcases mem_decimal h with hc | rfl
  · obtain ⟨hle, hle'⟩ := toNat_of_isDigit hc
    rw [← Bool.not_eq_true, isBlank, inRanges_eq_true_iff]
    rintro ⟨range, hmem, hlo, hhi⟩
    have := houtside range hmem
    omega
  · decide

theorem allBlank_decimal (n : Int) : allBlank (decimal n) = false := by
  obtain ⟨c, rest, hn⟩ := List.exists_cons_of_ne_nil (decimal_ne_nil n)
  have hc := not_isBlank_of_mem_decimal (hn ▸ List.mem_cons_self : c ∈ decimal n)
  rw [allBlank, hn, List.all_cons, hc, Bool.false_and]

variable {previous entry : MapEntry} {fields : List (List Char)}

/-- A field that is written out is found, and any other repeats the one before. -/
theorem SpellsField.field?_eq {α : Type} {text : α → List Char} {before value : α} {index : Nat}
    (h : SpellsField text before value fields[index]?) (ht : allBlank (text value) = false) :
    field? fields index = some (text value) ∨ field? fields index = none ∧ value = before := by
  rw [field?]
  generalize fields[index]? = found at h
  cases h with
  | text => exact .inl (by rw [Option.filter_some, ht]; rfl)
  | blank same hb => exact .inr ⟨by rw [Option.filter_some, hb]; rfl, same⟩
  | missing same => exact .inr ⟨rfl, same⟩

theorem SpellsField.numberField {before value : Int} {index : Nat}
    (h : SpellsField decimal before value fields[index]?) :
    numberField fields index before = .ok value := by
  rw [SourceMap.numberField]
  obtain hf | ⟨hf, rfl⟩ := h.field?_eq (allBlank_decimal value)
  · rw [hf]
    dsimp only
    rw [Json.readInt, String.toList_ofList, readInteger_decimal]
  · rw [hf]

theorem allBlank_markText {jump : Jump} (h : jump.known = true) :
    allBlank (markText jump) = false := by
  cases jump with
  | other mark => cases h
  | _ => decide

theorem ofMark_trim_markText {jump : Jump} (h : jump.known = true) :
    Jump.ofMark (String.ofList (trim (markText jump))) = jump := by
  cases jump with
  | other mark => cases h
  | _ => decide

theorem SpellsField.jumpField {before jump : Jump} {index : Nat}
    (h : SpellsField markText before jump fields[index]?) (hk : jump.known = true) :
    jumpField fields index before = jump := by
  rw [SourceMap.jumpField]
  obtain hf | ⟨hf, rfl⟩ := h.field?_eq (allBlank_markText hk)
  · rw [hf]
    exact ofMark_trim_markText hk
  · rw [hf]

/-- A character that is not blank stands in a field only if it stands in its text. -/
theorem SpellsField.not_mem {α : Type} {text : α → List Char} {before value : α}
    {field : List Char} (h : SpellsField text before value (some field)) {c : Char}
    (hc : isBlank c = false) (ht : c ∉ text value) : c ∉ field := by
  cases h with
  | text => exact ht
  | blank same hb =>
    intro hmem
    rw [List.all_eq_true.mp hb c hmem] at hc
    cases hc

/-! ### Entries -/

/-- The separators of entries and of fields. -/
def IsSeparator (c : Char) : Prop := c = ':' ∨ c = ';'

theorem IsSeparator.not_isBlank {c : Char} (h : IsSeparator c) : isBlank c = false := by
  rcases h with rfl | rfl <;> decide

theorem IsSeparator.not_mem_decimal {c : Char} (h : IsSeparator c) (n : Int) : c ∉ decimal n := by
  intro hmem
  rcases mem_decimal hmem with hc | rfl
  · rcases h with rfl | rfl <;> cases hc
  · rcases h with h | h <;> cases h

theorem IsSeparator.not_mem_markText {c : Char} (h : IsSeparator c) {jump : Jump}
    (hk : jump.known = true) : c ∉ markText jump := by
  cases jump with
  | other mark => cases hk
  | _ => rcases h with rfl | rfl <;> decide

/-- No field of an entry has a separator in it. -/
theorem SpellsEntry.not_mem (h : SpellsEntry previous entry fields)
    (hk : entry.jump.known = true) {c : Char} (hc : IsSeparator c) :
    ∀ field ∈ fields, c ∉ field := by
  intro field hmem
  obtain ⟨index, hlt, hindex⟩ := List.mem_iff_getElem?.mp hmem |>.imp fun i hi =>
    (⟨(List.getElem?_eq_some_iff.mp hi).1, hi⟩ : i < fields.length ∧ fields[i]? = some field)
  have hle := h.length_le
  have hb := hc.not_isBlank
  match index, hindex with
  | 0, hindex => exact (hindex ▸ h.offset).not_mem hb (hc.not_mem_decimal _)
  | 1, hindex => exact (hindex ▸ h.length).not_mem hb (hc.not_mem_decimal _)
  | 2, hindex => exact (hindex ▸ h.fileIndex).not_mem hb (hc.not_mem_decimal _)
  | 3, hindex => exact (hindex ▸ h.jump).not_mem hb (hc.not_mem_markText hk)
  | 4, hindex => exact (hindex ▸ h.modifierDepth).not_mem hb (hc.not_mem_decimal _)
  | index + 5, _ => omega

/-- The fields of an entry are found again in its text.  If all of them are left out, a single blank
field is found. -/
theorem SpellsEntry.exists_splitBy (h : SpellsEntry previous entry fields)
    (hk : entry.jump.known = true) :
    ∃ found, splitBy ':' (joinWith ':' fields) = found ∧ SpellsEntry previous entry found := by
  by_cases hne : fields = []
  · subst hne
    refine ⟨[[]], rfl, ?_⟩
    have hsame : entry.offset = previous.offset := by
      have hoffset := h.offset
      cases hoffset
      assumption
    exact ⟨.blank hsame rfl, h.length, h.fileIndex, h.jump, h.modifierDepth, by decide⟩
  · exact ⟨fields, splitBy_joinWith hne (h.not_mem hk (.inl rfl)), h⟩

theorem SpellsEntry.entryOfFields (h : SpellsEntry previous entry fields)
    (hk : entry.jump.known = true) : entryOfFields previous fields = .ok entry := by
  rw [SourceMap.entryOfFields, h.offset.numberField, h.length.numberField,
    h.fileIndex.numberField, h.modifierDepth.numberField, h.jump.jumpField hk]
  rfl

theorem SpellsEntry.entryOfPart (h : SpellsEntry previous entry fields)
    (hk : entry.jump.known = true) (position : Nat) :
    entryOfPart position previous (joinWith ':' fields) = .ok entry := by
  obtain ⟨found, hsplit, hfound⟩ := h.exists_splitBy hk
  rw [SourceMap.entryOfPart, hsplit, hfound.entryOfFields hk]
  exact if_pos hk

/-! ### Maps -/

variable {entries : List MapEntry} {parts : List (List Char)}

/-- One entry after the other is read. -/
theorem SpellsMap.entriesOfParts (h : SpellsMap previous entries parts)
    (hknown : ∀ entry ∈ entries, entry.jump.known = true) (position : Nat) :
    entriesOfParts position previous parts = .ok entries := by
  induction h generalizing position with
  | nil => rfl
  | cons first rest ih =>
    rw [SourceMap.entriesOfParts, first.entryOfPart (hknown _ List.mem_cons_self) position]
    show (do
      let entries ← SourceMap.entriesOfParts (position + 1) _ _
      return _ :: entries) = _
    rw [ih (fun entry he => hknown entry (List.mem_cons_of_mem _ he)) (position + 1)]
    rfl

/-- No part has a semicolon in it. -/
theorem SpellsMap.not_mem (h : SpellsMap previous entries parts)
    (hknown : ∀ entry ∈ entries, entry.jump.known = true) : ∀ part ∈ parts, ';' ∉ part := by
  induction h with
  | nil => exact fun _ hm => absurd hm List.not_mem_nil
  | cons first rest ih =>
    intro part hpart hmem
    rcases List.mem_cons.mp hpart with rfl | hpart
    · obtain hc | ⟨field, hfield, hc⟩ := mem_joinWith hmem
      · cases hc
      · exact first.not_mem (hknown _ List.mem_cons_self) (.inr rfl) field hfield hc
    · exact ih (fun entry he => hknown entry (List.mem_cons_of_mem _ he)) part hpart hmem

/-- **A compressed source map is read back.**  However entries with known jumps are written one
after the other, fields that repeat the entry before being written out, left blank or, at the end of
an entry, left out: if the text is not empty, the reader finds exactly these entries. -/
theorem parse_of_spellsMap (hknown : ∀ entry ∈ entries, entry.jump.known = true)
    (h : SpellsMap .initial entries parts) (hne : joinWith ';' parts ≠ []) :
    parse (String.ofList (joinWith ';' parts)) = .ok entries := by
  have htext : String.ofList (joinWith ';' parts) ≠ "" := by
    intro heq
    have hlist := congrArg String.toList heq
    rw [String.toList_ofList] at hlist
    exact hne hlist
  have hparts : parts ≠ [] := by
    rintro rfl
    exact hne rfl
  rw [parse, if_neg htext, String.toList_ofList, splitBy_joinWith hparts (h.not_mem hknown),
    h.entriesOfParts hknown]

/-- Entries that repeat much of one another. -/
def terse : List MapEntry :=
  [⟨0, 10, 0, .regular, 0⟩, ⟨0, 10, 0, .regular, 0⟩, ⟨12, 3, -1, .regular, 0⟩,
    ⟨12, 5, -1, .into, 0⟩, ⟨12, 5, -1, .into, 1⟩]

/-- Their fields: all written out, all left out, the last two blank or left out, and blanks between
others. -/
def terseFields : List (List (List Char)) :=
  [[decimal 0, decimal 10, decimal 0, markText .regular, decimal 0], [],
    [decimal 12, decimal 3, decimal (-1), []], [[], decimal 5, [], markText .into],
    [[], [' '], [], [], decimal 1]]

theorem terse_parse_of_spellsMap :
    (∀ entry ∈ terse, entry.jump.known = true)
      ∧ SpellsMap .initial terse (terseFields.map (joinWith ':'))
      ∧ joinWith ';' (terseFields.map (joinWith ':')) = "0:10:0:-:0;;12:3:-1:;:5::i;: :::1".toList
      ∧ parse "0:10:0:-:0;;12:3:-1:;:5::i;: :::1" = .ok terse := by
  have hspells : SpellsMap .initial terse (terseFields.map (joinWith ':')) :=
    .cons ⟨.text, .text, .text, .text, .text, by decide⟩
      (.cons ⟨.missing rfl, .missing rfl, .missing rfl, .missing rfl, .missing rfl, by decide⟩
        (.cons ⟨.text, .text, .text, .blank rfl rfl, .missing rfl, by decide⟩
          (.cons ⟨.blank rfl rfl, .text, .blank rfl rfl, .text, .missing rfl, by decide⟩
            (.cons ⟨.blank rfl rfl, .blank rfl rfl, .blank rfl rfl, .blank rfl rfl, .text,
              by decide⟩ .nil))))
  have htext : joinWith ';' (terseFields.map (joinWith ':'))
      = "0:10:0:-:0;;12:3:-1:;:5::i;: :::1".toList := by decide
  have hknown : ∀ entry ∈ terse, entry.jump.known = true := by decide
  have hparse := parse_of_spellsMap hknown hspells (by rw [htext]; decide)
  rw [htext] at hparse
  exact ⟨hknown, hspells, htext, hparse⟩

end TraceDebugger.SourceMap
