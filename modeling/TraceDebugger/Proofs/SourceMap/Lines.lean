/-
Lines and columns are found by counting.

The index of a source is a table of the offsets at which its lines start, and an offset is looked up
in it.  That comes to the same as counting the line feeds before the offset and the characters since
the last of them.

* `takeWhile_startsAfter` — the lines that start up to an offset are those of the text before it;
* `length_startsAfter`, `getLastD_startsAfter` — how many they are, and where the last one starts;
* `position_eq_lineColumnAfter` — so the position of an offset is a count;
* `order_lt_append` — more text leads to a later position;
* `positions_counted` — the main result.
-/
import TraceDebugger.SourceMap.Range
import Mathlib.Data.List.DropRight
import Mathlib.Data.Prod.Lex

namespace TraceDebugger

/-- Positions in the order of lines, and of columns on the same line. -/
def LineColumn.order (position : LineColumn) : ℕ ×ₗ ℕ := toLex (position.line, position.column)

namespace LineIndex

/-- The text of a source before an offset; an offset outside is taken as the nearest one inside. -/
def textBefore (source : String) (offset : Int) : List Char :=
  source.toList.take (max 0 (min offset source.length)).toNat

/-- The position after a text: its line feeds are counted, and the characters after the last one. -/
def lineColumnAfter (text : List Char) : LineColumn :=
  { line := text.count '\n' + 1, column := (text.rtakeWhile (· != '\n')).length + 1 }

/-! ### The table of line starts -/

variable {text : List Char} {base : ℕ}

theorem startsAfter_append (text more : List Char) (base : ℕ) :
    startsAfter base (text ++ more) =
      startsAfter base text ++ startsAfter (base + text.length) more := by
  induction text generalizing base with
  | nil => simp [startsAfter]
  | cons c rest ih =>
    have hbase : base + 1 + rest.length = base + (c :: rest).length := by
      rw [List.length_cons]
      omega
    by_cases hc : c = '\n'
    · simp only [List.cons_append, startsAfter, if_pos hc, ih, hbase]
    · simp only [List.cons_append, startsAfter, if_neg hc, ih, hbase]

/-- A line starts after a line feed, so not at the beginning of the text. -/
theorem lt_of_mem_startsAfter {start : ℕ} (h : start ∈ startsAfter base text) : base < start := by
  induction text generalizing base with
  | nil => cases h
  | cons c rest ih =>
    rw [startsAfter] at h
    by_cases hc : c = '\n'
    · rw [if_pos hc] at h
      obtain rfl | h := List.mem_cons.mp h
      · omega
      · have := ih h
        omega
    · rw [if_neg hc] at h
      have := ih h
      omega

/-- The lines that start up to an offset are those of the text before it. -/
theorem takeWhile_startsAfter (text : List Char) (base count : ℕ) :
    (startsAfter base text).takeWhile (· ≤ base + count) = startsAfter base (text.take count) := by
  induction text generalizing base count with
  | nil => simp [startsAfter]
  | cons c rest ih =>
    cases count with
    | zero =>
      -- no line starts at the beginning of the text
      rw [List.take_zero, show startsAfter base [] = [] from rfl, List.takeWhile_eq_nil_iff]
      intro hpos
      have := lt_of_mem_startsAfter (List.getElem_mem hpos)
      simpa using this
    | succ count =>
      have hcount : base + (count + 1) = base + 1 + count := by omega
      rw [List.take_succ_cons, startsAfter, startsAfter, hcount]
      by_cases hc : c = '\n'
      · rw [if_pos hc, if_pos hc, List.takeWhile_cons_of_pos (by simp), ih]
      · rw [if_neg hc, if_neg hc, ih]

theorem length_startsAfter (text : List Char) (base : ℕ) :
    (startsAfter base text).length = text.count '\n' := by
  induction text generalizing base with
  | nil => rfl
  | cons c rest ih =>
    rw [startsAfter]
    by_cases hc : c = '\n'
    · rw [if_pos hc, hc, List.length_cons, ih, List.count_cons_self]
    · rw [if_neg hc, ih, List.count_cons_of_ne hc]

/-- The text ends as many characters after the start of its last line as follow the last line
feed. -/
theorem getLastD_startsAfter (text : List Char) :
    (0 :: startsAfter 0 text).getLastD 0 + (text.rtakeWhile (· != '\n')).length = text.length := by
  induction text using List.reverseRecOn with
  | nil => rfl
  | append_singleton text c ih =>
    rw [startsAfter_append, Nat.zero_add, List.length_append, List.length_singleton]
    by_cases hc : c = '\n'
    · -- a new line starts here
      rw [startsAfter, if_pos hc, startsAfter, ← List.cons_append, List.getLastD_concat,
        List.rtakeWhile_concat_neg _ _ _ (by simpa using hc)]
      rfl
    · rw [startsAfter, if_neg hc, startsAfter, List.append_nil,
        List.rtakeWhile_concat_pos _ _ _ (by simpa using hc), List.length_append,
        List.length_singleton, ← Nat.add_assoc, ih]

/-! ### Positions -/

theorem length_textBefore (source : String) (offset : Int) :
    (textBefore source offset).length = (ofSource source).clamp offset := by
  have hsize : (ofSource source).size = source.toList.length := rfl
  have hlength : source.length = source.toList.length := String.length_toList.symm
  rw [textBefore, List.length_take, clamp, hsize, hlength]
  omega

/-- **A position is a count**: what is looked up in the table is counted in the text. -/
theorem position_eq_lineColumnAfter (source : String) (offset : Int) :
    (ofSource source).position offset = lineColumnAfter (textBefore source offset) := by
  have hlength := length_textBefore source offset
  have htake : source.toList.take ((ofSource source).clamp offset) = textBefore source offset := by
    rw [← hlength, textBefore, List.length_take, ← List.take_take, List.take_length]
  have hstarts : (ofSource source).starts.takeWhile (· ≤ (ofSource source).clamp offset) =
      0 :: startsAfter 0 (textBefore source offset) := by
    have hrest := takeWhile_startsAfter source.toList 0 ((ofSource source).clamp offset)
    rw [Nat.zero_add, htake] at hrest
    rw [← hrest]
    exact List.takeWhile_cons_of_pos (by simp)
  have hlast := getLastD_startsAfter (textBefore source offset)
  rw [position, hstarts, lineColumnAfter, List.length_cons, length_startsAfter, ← hlength]
  congr 1
  omega

theorem line_position_eq_count (source : String) (offset : Int) :
    ((ofSource source).position offset).line = (textBefore source offset).count '\n' + 1 := by
  rw [position_eq_lineColumnAfter, lineColumnAfter]

/-- More text leads to a later position. -/
theorem order_lt_append (text : List Char) {more : List Char} (h : more ≠ []) :
    (lineColumnAfter text).order < (lineColumnAfter (text ++ more)).order := by
  -- one more character leads to the next column or to the next line
  have hstep : ∀ (text : List Char) (c : Char),
      (lineColumnAfter text).order < (lineColumnAfter (text ++ [c])).order := by
    intro text c
    rw [LineColumn.order, LineColumn.order, Prod.Lex.toLex_lt_toLex]
    by_cases hc : c = '\n'
    · left
      simp [lineColumnAfter, hc]
    · right
      simp [lineColumnAfter, hc]
  induction more using List.reverseRecOn with
  | nil => exact absurd rfl h
  | append_singleton more c ih =>
    rw [← List.append_assoc]
    by_cases hmore : more = []
    · rw [hmore, List.append_nil]
      exact hstep text c
    · exact (ih hmore).trans (hstep (text ++ more) c)

/-- A later offset inside the source has more text before it. -/
theorem exists_textBefore_append {source : String} {first second : Int} (hfirst : 0 ≤ first)
    (hlt : first < second) (hsecond : second ≤ source.length) :
    ∃ more, more ≠ [] ∧ textBefore source second = textBefore source first ++ more := by
  have hlength : source.length = source.toList.length := String.length_toList.symm
  obtain ⟨count, rfl⟩ := Int.eq_ofNat_of_zero_le hfirst
  obtain ⟨extra, rfl⟩ : ∃ extra : ℕ, second = count + (extra + 1) :=
    ⟨(second - count - 1).toNat, by omega⟩
  refine ⟨(source.toList.drop count).take (extra + 1), ?_, ?_⟩
  · rw [Ne, List.take_eq_nil_iff, List.drop_eq_nil_iff]
    omega
  · have hfirst : (max 0 (min (count : Int) source.length)).toNat = count := by omega
    have hsecond : (max 0 (min ((count : Int) + (extra + 1)) source.length)).toNat =
        count + (extra + 1) := by omega
    rw [textBefore, textBefore, hfirst, hsecond, List.take_add]

/-- **Lines and columns are counted.**  The position of any offset is that after the text before it:
the line is one more than the line feeds there, and the column one more than the characters since
the last of them or the beginning.  From the beginning of the source to its end every offset has a
later position than those before it. -/
theorem positions_counted (source : String) :
    (∀ offset : Int, (ofSource source).position offset =
      lineColumnAfter (textBefore source offset)) ∧
    ∀ first second : Int, 0 ≤ first → first < second → second ≤ source.length →
      ((ofSource source).position first).order < ((ofSource source).position second).order := by
  refine ⟨position_eq_lineColumnAfter source, ?_⟩
  intro first second hfirst hlt hsecond
  obtain ⟨more, hmore, htext⟩ := exists_textBefore_append hfirst hlt hsecond
  rw [position_eq_lineColumnAfter, position_eq_lineColumnAfter, htext]
  exact order_lt_append _ hmore

/-- In a text of three lines, the second one empty; offsets outside are taken as its ends. -/
example : [-1, 0, 2, 3, 4, 5, 9].map (ofSource "ab\n\nc").position =
    [⟨1, 1⟩, ⟨1, 1⟩, ⟨1, 3⟩, ⟨2, 1⟩, ⟨3, 1⟩, ⟨3, 2⟩, ⟨3, 2⟩] := by decide +kernel

end LineIndex

end TraceDebugger
