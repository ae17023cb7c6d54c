/-
Malformed source maps are reported at their first malformed part.

A part of a source map makes no entry if one of its numbers is no integer or its jump does not
exist; a field that is blank or missing repeats the entry before and does no harm.

* `numberField_cases`, `known_jumpField_iff` — when a field is read;
* `entryOfPart_cases` — a part is read, or it is malformed and its position is reported;
* `entriesOfParts_cases` — all parts are read, or the first malformed one is reported;
* `parse_or_reports` — the main result.
-/
import TraceDebugger.Proofs.Readings
import TraceDebugger.SourceMap.Parser

namespace TraceDebugger.SourceMap

open Text

/-- A part has a field at an index, and it is not blank. -/
def HasField (part : List Char) (index : Nat) (field : List Char) : Prop :=
  (splitBy ':' part)[index]? = some field ∧ allBlank field = false

/-- The indexes of the fields that are numbers: offset, length, file index and modifier depth. -/
def numberIndexes : List Nat := [0, 1, 2, 4]

/-- The text of a jump that exists. -/
def IsJumpText (cs : List Char) : Prop := cs = ['i'] ∨ cs = ['o'] ∨ cs = ['-']

/-- A part makes no entry. -/
inductive Malformed (part : List Char) : Prop
  /-- One of its numbers is no integer. -/
  | number {index : Nat} {field : List Char} (hindex : index ∈ numberIndexes)
    (h : HasField part index field) (hread : readInteger 10 field = none)
  /-- Its jump does not exist. -/
  | jump {field : List Char} (h : HasField part 3 field) (hjump : ¬ IsJumpText (trim field))

/-- The part at an index is the first malformed one. -/
def FirstMalformed (parts : List (List Char)) (index : Nat) : Prop :=
  (∃ part, parts[index]? = some part ∧ Malformed part) ∧
    ∀ part ∈ parts.take index, ¬ Malformed part

/-- The parts of a source map, between semicolons; the empty text has none. -/
def partsOf (text : String) : List (List Char) :=
  if text = "" then [] else splitBy ';' text.toList

/-- A fault is one of source maps and names a position. -/
def Reports (fault : Fault) (position : Nat) : Prop :=
  fault.kind.name = "SourceMapParseError" ∧ fault.details = [("entry", .int position)]

/-! ### Fields -/

variable {fields : List (List Char)} {index position : Nat} {field part : List Char}
  {previous : MapEntry}

theorem field?_eq_some_iff :
    field? fields index = some field ↔ fields[index]? = some field ∧ allBlank field = false := by
  simp [field?, Option.filter_eq_some_iff]

/-- A number is read unless there is a field that is no integer. -/
theorem numberField_cases (fields : List (List Char)) (index : Nat) (before : Int) :
    (∃ n, numberField fields index before = .ok n ∧
      ∀ field, field? fields index = some field → readInteger 10 field ≠ none) ∨
    (∃ fault, numberField fields index before = .error fault) ∧
      ∃ field, field? fields index = some field ∧ readInteger 10 field = none := by
  -- a field that is missing or blank repeats the number before it
  cases hfield : field? fields index with
  | none =>
    left
    exact ⟨before, by rw [numberField, hfield], nofun⟩
  | some field =>
    cases hread : readInteger 10 field with
    | none =>
      right
      refine ⟨⟨.unfit (.badInteger (String.ofList field) 10), ?_⟩, field, rfl, hread⟩
      rw [numberField, hfield]
      dsimp only
      rw [Json.readInt, String.toList_ofList, hread]
    | some n =>
      left
      refine ⟨n, ?_, fun other hother => ?_⟩
      · rw [numberField, hfield]
        dsimp only
        rw [Json.readInt, String.toList_ofList, hread]
      · obtain rfl := Option.some.inj hother
        rw [hread]
        nofun

/-- The numbers of an entry are read unless one of them is no integer. -/
theorem entryOfFields_cases (previous : MapEntry) (fields : List (List Char)) :
    (∃ entry, entryOfFields previous fields = .ok entry ∧
      entry.jump = jumpField fields 3 previous.jump ∧
      ∀ index ∈ numberIndexes, ∀ field,
        field? fields index = some field → readInteger 10 field ≠ none) ∨
    (∃ fault, entryOfFields previous fields = .error fault) ∧
      ∃ index ∈ numberIndexes, ∃ field,
        field? fields index = some field ∧ readInteger 10 field = none := by
  -- the numbers are read from left to right, and the first that fails is the fault
  rcases numberField_cases fields 0 previous.offset with
    ⟨offset, hoffset, h0⟩ | ⟨⟨fault, hfault⟩, hbad⟩
  swap
  · exact .inr ⟨⟨fault, by rw [entryOfFields, hfault]; rfl⟩, 0, by decide, hbad⟩
  rcases numberField_cases fields 1 previous.length with
    ⟨length, hlength, h1⟩ | ⟨⟨fault, hfault⟩, hbad⟩
  swap
  · exact .inr ⟨⟨fault, by rw [entryOfFields, hoffset, hfault]; rfl⟩, 1, by decide, hbad⟩
  rcases numberField_cases fields 2 previous.fileIndex with
    ⟨fileIndex, hfile, h2⟩ | ⟨⟨fault, hfault⟩, hbad⟩
  swap
  · exact .inr ⟨⟨fault, by rw [entryOfFields, hoffset, hlength, hfault]; rfl⟩, 2, by decide, hbad⟩
  rcases numberField_cases fields 4 previous.modifierDepth with
    ⟨depth, hdepth, h4⟩ | ⟨⟨fault, hfault⟩, hbad⟩
  swap
  · exact .inr ⟨⟨fault, by rw [entryOfFields, hoffset, hlength, hfile, hfault]; rfl⟩, 4, by decide,
      hbad⟩
  left
  refine ⟨⟨offset, length, fileIndex, jumpField fields 3 previous.jump, depth⟩, ?_, rfl, ?_⟩
  · rw [entryOfFields, hoffset, hlength, hfile, hdepth]
    rfl
  · simp only [numberIndexes, List.forall_mem_cons]
    exact ⟨h0, h1, h2, h4, nofun⟩

theorem known_ofMark_iff (mark : String) :
    (Jump.ofMark mark).known = true ↔ mark = "i" ∨ mark = "o" ∨ mark = "-" := by
  rw [Jump.ofMark]
  split_ifs <;> simp_all [Jump.known]

theorem known_ofMark_ofList_iff (cs : List Char) :
    (Jump.ofMark (String.ofList cs)).known = true ↔ IsJumpText cs := by
  have htext : ∀ c : Char, String.ofList cs = String.ofList [c] ↔ cs = [c] := fun c =>
    String.ofList_inj
  rw [known_ofMark_iff, IsJumpText, ← htext, ← htext, ← htext]

/-- A jump is known after a known one unless there is a field that is no jump. -/
theorem known_jumpField_iff {before : Jump} (h : before.known = true) :
    (jumpField fields index before).known = true ↔
      ∀ field, field? fields index = some field → IsJumpText (trim field) := by
  cases hfield : field? fields index with
  | none =>
    rw [jumpField, hfield]
    exact ⟨fun _ => nofun, fun _ => h⟩
  | some field =>
    rw [jumpField, hfield]
    simp [known_ofMark_ofList_iff]

/-! ### Parts -/

/-- After an entry with a known jump, a part makes another one, or it is malformed and its position
is reported. -/
theorem entryOfPart_cases (h : previous.jump.known = true) (position : Nat) (part : List Char) :
    (∃ entry, entryOfPart position previous part = .ok entry ∧ entry.jump.known = true ∧
      ¬ Malformed part) ∨
    (∃ fault, entryOfPart position previous part = .error fault ∧ Reports fault position ∧
      Malformed part) := by
  rcases entryOfFields_cases previous (splitBy ':' part) with
    ⟨entry, hentry, hjump, hnumbers⟩ | ⟨⟨fault, hfault⟩, index, hindex, field, hfield, hread⟩
  · -- the jump is looked at only once the numbers have been read
    by_cases hknown : entry.jump.known = true
    · left
      refine ⟨entry, by rw [entryOfPart, hentry]; exact if_pos hknown, hknown, ?_⟩
      rintro (⟨hindex, hfield, hread⟩ | ⟨hfield, hbad⟩)
      · exact hnumbers _ hindex _ (field?_eq_some_iff.mpr hfield) hread
      · rw [hjump, known_jumpField_iff h] at hknown
        exact hbad (hknown _ (field?_eq_some_iff.mpr hfield))
    · right
      refine ⟨.unknownJump position entry.jump.mark,
        by rw [entryOfPart, hentry]; exact if_neg hknown, ⟨rfl, rfl⟩, ?_⟩
      rw [hjump, known_jumpField_iff h] at hknown
      push Not at hknown
      obtain ⟨field, hfield, hbad⟩ := hknown
      exact .jump (field?_eq_some_iff.mp hfield) hbad
  · right
    refine ⟨.malformedEntry position (String.ofList part) fault.message,
      by rw [entryOfPart, hfault], ⟨rfl, rfl⟩, ?_⟩
    exact .number hindex (field?_eq_some_iff.mp hfield) hread

/-- After an entry with a known jump, every part makes an entry, or the first malformed one is
reported. -/
theorem entriesOfParts_cases (h : previous.jump.known = true) (position : Nat)
    (parts : List (List Char)) :
    (∃ entries, entriesOfParts position previous parts = .ok entries ∧
      entries.length = parts.length ∧ ∀ part ∈ parts, ¬ Malformed part) ∨
    ∃ fault index, entriesOfParts position previous parts = .error fault ∧
      Reports fault (position + index) ∧ FirstMalformed parts index := by
  -- on the parts; the entry before them changes, but its jump stays a known one
  induction parts generalizing position previous with
  | nil => exact .inl ⟨[], rfl, rfl, nofun⟩
  | cons part parts ih =>
    rcases entryOfPart_cases h position part with
      ⟨entry, hentry, hknown, hgood⟩ | ⟨fault, hfault, hreports, hbad⟩
    · rcases ih hknown (position + 1) with
        ⟨entries, hentries, hlength, hall⟩ | ⟨fault, index, hfault, hreports, hfirst, hbefore⟩
      · left
        refine ⟨entry :: entries, ?_, by simp [hlength], List.forall_mem_cons.mpr ⟨hgood, hall⟩⟩
        rw [entriesOfParts, bind_of_eq_ok hentry, bind_of_eq_ok hentries]
        rfl
      · right
        refine ⟨fault, index + 1, ?_, ?_, hfirst, ?_⟩
        · rw [entriesOfParts, bind_of_eq_ok hentry, hfault]
          rfl
        · rwa [Nat.add_assoc, Nat.add_comm 1] at hreports
        · rw [List.take_succ_cons]
          exact List.forall_mem_cons.mpr ⟨hgood, hbefore⟩
    · right
      refine ⟨fault, 0, ?_, hreports, ⟨part, rfl, hbad⟩, nofun⟩
      rw [entriesOfParts, hfault]
      rfl

/-- **A source map is read, or its first malformed part is reported.**  Either no part is malformed
and there is one entry for each of them, or the fault is one of source maps and names the position
of the first malformed part. -/
theorem parse_or_reports (text : String) :
    (∃ entries, parse text = .ok entries ∧ entries.length = (partsOf text).length ∧
      ∀ part ∈ partsOf text, ¬ Malformed part) ∨
    ∃ fault position, parse text = .error fault ∧ Reports fault position ∧
      FirstMalformed (partsOf text) position := by
  have hparse : parse text = entriesOfParts 0 .initial (partsOf text) := by
    rw [parse, partsOf]
    split <;> rfl
  rw [hparse]
  have hcases := @entriesOfParts_cases .initial rfl 0 (partsOf text)
  simpa only [Nat.zero_add] using hcases

/-- The second part has a jump that does not exist; that the third one is malformed, too, is not
seen. -/
example : parse "0:1:0:-;1:1: :x;2:one" = .error (.unknownJump 1 "x") := rfl

end TraceDebugger.SourceMap
