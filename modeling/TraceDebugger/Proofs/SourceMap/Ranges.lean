/-
Ranges in a source.

A range is of characters, and its lines are those of its first and of its last character.  Between
the two lie the line feeds of the other characters, so a line feed at its very end does not make a
range span several lines.  Containment compares offsets only, and lines follow them.

* `last_line_eq` — the last line is the first one, and one more for every line feed before the last
  character;
* `line_position_le` — a later offset is not on an earlier line;
* `contains_trans`, `contains_antisymm_iff` — containment is an order of what ranges cover;
* `lines_of_ranges` — the main result.
-/
import TraceDebugger.Proofs.SourceMap.Lines

namespace TraceDebugger

namespace LineIndex

/-- The text before an offset begins with that before an earlier one. -/
theorem textBefore_isPrefix (source : String) {first second : Int} (h : first ≤ second) :
    textBefore source first <+: textBefore source second := by
  rw [textBefore, textBefore]
  exact List.take_prefix_take_left (by omega)

/-- A later offset is not on an earlier line. -/
theorem line_position_le (source : String) {first second : Int} (h : first ≤ second) :
    ((ofSource source).position first).line ≤ ((ofSource source).position second).line := by
  rw [line_position_eq_count, line_position_eq_count]
  exact Nat.succ_le_succ ((textBefore_isPrefix source h).sublist.count_le _)

end LineIndex

namespace SourceRange

open LineIndex

/-- A range of at least one character inside a source, as its index builds it. -/
structure IsIn (range : SourceRange) (source : String) : Prop where
  built : range = (ofSource source).range range.start range.length range.fileIndex
  start_nonneg : 0 ≤ range.start
  length_pos : 1 ≤ range.length
  stop_le : range.stop ≤ source.length

/-- The characters of a range. -/
def characters (range : SourceRange) (source : String) : List Char :=
  (source.toList.drop range.start.toNat).take range.length.toNat

/-! ### Containment -/

variable {a b c : SourceRange}

theorem contains_iff : a.contains b = true ↔ a.start ≤ b.start ∧ b.stop ≤ a.stop := by
  rw [contains, Bool.and_eq_true, decide_eq_true_iff, decide_eq_true_iff]

theorem sameAs_iff : a.sameAs b = true ↔ a.start = b.start ∧ a.length = b.length := by
  rw [sameAs, Bool.and_eq_true, beq_iff_eq, beq_iff_eq]

theorem contains_refl (a : SourceRange) : a.contains a = true :=
  contains_iff.mpr ⟨Int.le_refl _, Int.le_refl _⟩

theorem contains_trans (hab : a.contains b = true) (hbc : b.contains c = true) :
    a.contains c = true := by
  obtain ⟨hab, hba⟩ := contains_iff.mp hab
  obtain ⟨hbc, hcb⟩ := contains_iff.mp hbc
  exact contains_iff.mpr ⟨hab.trans hbc, hcb.trans hba⟩

/-- Ranges that contain each other cover the same characters. -/
theorem contains_antisymm_iff :
    a.contains b = true ∧ b.contains a = true ↔ a.sameAs b = true := by
  rw [contains_iff, contains_iff, sameAs_iff, stop, stop]
  omega

/-! ### Lines of ranges -/

variable {source : String} {range outer inner : SourceRange}

theorem IsIn.first_eq (h : range.IsIn source) :
    range.first = (ofSource source).position range.start := by
  rw [h.built]
  rfl

/-- A range ends at its last character. -/
theorem IsIn.last_eq (h : range.IsIn source) :
    range.last = (ofSource source).position (range.stop - 1) := by
  have hpos : 0 < range.length := h.length_pos
  conv_lhs => rw [h.built, LineIndex.range]
  rw [if_pos hpos, stop]

/-- The text before the last character of a range ends with its other characters. -/
theorem IsIn.textBefore_last (h : range.IsIn source) :
    textBefore source (range.stop - 1) =
      textBefore source range.start ++ (range.characters source).dropLast := by
  obtain ⟨-, hstart, hlength, hstop⟩ := h
  rw [stop] at hstop
  have hsource : source.length = source.toList.length := String.length_toList.symm
  have hfirst : (max 0 (min range.start source.length)).toNat = range.start.toNat := by omega
  have hlast : (max 0 (min (range.stop - 1) source.length)).toNat =
      range.start.toNat + (range.length.toNat - 1) := by
    rw [stop]
    omega
  have hcharacters : (range.characters source).dropLast =
      (source.toList.drop range.start.toNat).take (range.length.toNat - 1) := by
    rw [characters, List.dropLast_eq_take, List.take_take, List.length_take, List.length_drop]
    congr 1
    omega
  rw [textBefore, textBefore, hfirst, hlast, hcharacters, List.take_add]

/-- The last line is the first one, and one more for every line feed before the last character. -/
theorem IsIn.last_line_eq (h : range.IsIn source) :
    range.last.line = range.first.line + (range.characters source).dropLast.count '\n' := by
  rw [h.first_eq, h.last_eq, line_position_eq_count, line_position_eq_count, h.textBefore_last,
    List.count_append]
  omega

theorem isMultiline_eq_false_iff : range.isMultiline = false ↔ range.first.line = range.last.line :=
  bne_eq_false_iff_eq

/-- A range spans several lines if it has a line feed before its last character. -/
theorem IsIn.isMultiline_iff (h : range.IsIn source) :
    range.isMultiline = true ↔ '\n' ∈ (range.characters source).dropLast := by
  rw [isMultiline, bne_iff_ne, h.last_line_eq, ← List.count_pos_iff]
  omega

/-- The lines of a range that is contained are among those of the other one. -/
theorem IsIn.lines_le (houter : outer.IsIn source) (hinner : inner.IsIn source)
    (h : outer.contains inner = true) :
    outer.first.line ≤ inner.first.line ∧ inner.last.line ≤ outer.last.line := by
  obtain ⟨hstart, hstop⟩ := contains_iff.mp h
  rw [houter.first_eq, houter.last_eq, hinner.first_eq, hinner.last_eq]
  exact ⟨line_position_le source hstart, line_position_le source (by omega)⟩

theorem IsIn.first_line_le (h : range.IsIn source) : range.first.line ≤ range.last.line := by
  rw [h.last_line_eq]
  exact Nat.le_add_right _ _

/-- **Lines of ranges.**  A range inside a source spans several lines exactly if one of its
characters other than the last is a line feed.  What it contains begins no earlier and ends no later
in lines, and so lies on the same line as a range of one line.  Containment is reflexive and
transitive, and ranges that contain each other cover the same characters. -/
theorem lines_of_ranges (houter : outer.IsIn source) (hinner : inner.IsIn source) :
    (outer.isMultiline = true ↔ '\n' ∈ (outer.characters source).dropLast) ∧
    (outer.contains inner = true →
      outer.first.line ≤ inner.first.line ∧ inner.last.line ≤ outer.last.line ∧
      (outer.isMultiline = false →
        inner.isMultiline = false ∧ inner.first.line = outer.first.line)) ∧
    (∀ a : SourceRange, a.contains a = true) ∧
    (∀ a b c : SourceRange, a.contains b = true → b.contains c = true → a.contains c = true) ∧
    ∀ a b : SourceRange, a.contains b = true ∧ b.contains a = true ↔ a.sameAs b = true := by
  refine ⟨houter.isMultiline_iff, ?_, contains_refl, fun _ _ _ => contains_trans,
    fun _ _ => contains_antisymm_iff⟩
  intro hcontains
  obtain ⟨hfirst, hlast⟩ := houter.lines_le hinner hcontains
  refine ⟨hfirst, hlast, fun hsingle => ?_⟩
  have houter_line := isMultiline_eq_false_iff.mp hsingle
  have hinner_line := hinner.first_line_le
  exact ⟨isMultiline_eq_false_iff.mpr (by omega), by omega⟩

/-- A source of two lines. -/
def twoLines : String := "a;\nb;\n"

/-- The second line lies in the whole source, and there the first line feed is not the last
character. -/
theorem twoLines_lines :
    let whole := (ofSource twoLines).range 0 6 0
    let second := (ofSource twoLines).range 3 3 0
    whole.IsIn twoLines ∧ second.IsIn twoLines ∧ whole.contains second = true ∧
      whole.isMultiline = true ∧ '\n' ∈ (whole.characters twoLines).dropLast ∧
      second.isMultiline = false ∧ whole.first.line ≤ second.first.line ∧
      second.last.line ≤ whole.last.line := by
  intro whole second
  have hwhole : whole.IsIn twoLines :=
    ⟨rfl, by decide, by decide, by decide +kernel⟩
  have hsecond : second.IsIn twoLines :=
    ⟨rfl, by decide, by decide, by decide +kernel⟩
  have hcontains : whole.contains second = true := by decide +kernel
  have hmultiline : whole.isMultiline = true := by decide +kernel
  have hlines := lines_of_ranges hwhole hsecond
  obtain ⟨hfirst, hlast, -⟩ := hlines.2.1 hcontains
  exact ⟨hwhole, hsecond, hcontains, hmultiline, hlines.1.mp hmultiline, by decide +kernel,
    hfirst, hlast⟩

end SourceRange

end TraceDebugger
