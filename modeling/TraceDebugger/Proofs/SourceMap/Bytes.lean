/-
Lines in bytes.

A compiler counts offsets in the bytes of a source, but the index of a source counts characters.  So
an offset is taken for that of a later character once there is a character of several bytes before
it, and the line feeds between the two places are counted too early (`overshot`).

* `count_lineFeed_take` — the line feeds among the bytes before an offset are those of the
  characters that lie before it;
* `line_position_eq` — the line of an offset is that of the byte, and one more for every line feed
  that is counted too early;
* `lines_of_bytes` — the main result, with the sources whose lines are right;
* `accented_line` — a source in which one is not.
-/
import TraceDebugger.Proofs.SourceMap.Lines

namespace TraceDebugger.LineIndex

/-- The bytes of a source, in which a compiler counts. -/
def bytes (source : String) : List UInt8 := source.toUTF8.data.toList

/-- The line of a byte: the line feeds among the bytes before it are counted. -/
def lineOfByte (source : String) (offset : ℕ) : ℕ := ((bytes source).take offset).count 0x0a + 1

/-- The characters at the beginning of a text whose bytes all lie before an offset. -/
def wholeBefore : List Char → ℕ → List Char
  | [], _ => []
  | c :: rest, offset =>
    if c.utf8Size ≤ offset then c :: wholeBefore rest (offset - c.utf8Size) else []

/-- The characters that the index takes to lie before an offset, and whose bytes do not. -/
def overshot (source : String) (offset : ℕ) : List Char :=
  (textBefore source offset).drop (wholeBefore source.toList offset).length

/-! ### Characters and bytes -/

theorem bytes_eq (source : String) :
    bytes source = source.toList.flatMap String.utf8EncodeChar := by
  rw [bytes, String.toUTF8_eq_toByteArray, ← String.utf8Encode_toList]
  exact List.toList_data_toByteArray

/-- A character has a line feed among its bytes only if it is one. -/
theorem lineFeed_notMem_utf8EncodeChar {c : Char} (h : c ≠ '\n') :
    0x0a ∉ String.utf8EncodeChar c := by
  have hcode : c.toNat ≠ 10 := fun heq => h (Char.ext (UInt32.toNat_inj.mp heq))
  rw [String.utf8EncodeChar]
  simp only [Char.toNat_val]
  -- the bytes of a character of several bytes are all at least 128
  split_ifs <;> simp [← UInt8.toNat_inj] <;> omega

theorem wholeBefore_of_le {c : Char} {offset : ℕ} (h : c.utf8Size ≤ offset) (rest : List Char) :
    wholeBefore (c :: rest) offset = c :: wholeBefore rest (offset - c.utf8Size) := if_pos h

theorem wholeBefore_of_lt {c : Char} {offset : ℕ} (h : offset < c.utf8Size) (rest : List Char) :
    wholeBefore (c :: rest) offset = [] := if_neg (Nat.not_le.mpr h)

/-- Before its last byte no character has a line feed. -/
theorem count_lineFeed_utf8EncodeChar_take {c : Char} {offset : ℕ} (h : offset < c.utf8Size) :
    ((String.utf8EncodeChar c).take offset).count 0x0a = 0 := by
  by_cases hc : c = '\n'
  · have hone : c.utf8Size = 1 := by rw [hc]; rfl
    obtain rfl : offset = 0 := by omega
    rfl
  · exact List.count_eq_zero.mpr fun hmem =>
      lineFeed_notMem_utf8EncodeChar hc (List.mem_of_mem_take hmem)

/-- The line feeds among the bytes before an offset are those of the characters before it. -/
theorem count_lineFeed_take (text : List Char) (offset : ℕ) :
    ((text.flatMap String.utf8EncodeChar).take offset).count 0x0a
      = (wholeBefore text offset).count '\n' := by
  -- on the characters; one that the offset cuts has no line feed among its bytes
  induction text generalizing offset with
  | nil => simp [wholeBefore]
  | cons c rest ih =>
    have hsize : (String.utf8EncodeChar c).length = c.utf8Size := String.length_utf8EncodeChar c
    rw [List.flatMap_cons, List.take_append, List.count_append, hsize]
    by_cases hle : c.utf8Size ≤ offset
    · rw [wholeBefore_of_le hle, ih, List.take_of_length_le (hsize ▸ hle)]
      by_cases hc : c = '\n'
      · have hone : (String.utf8EncodeChar c).count 0x0a = 1 := by rw [hc]; rfl
        rw [hone, hc, List.count_cons_self, Nat.add_comm]
      · rw [List.count_eq_zero.mpr (lineFeed_notMem_utf8EncodeChar hc), List.count_cons_of_ne hc,
          Nat.zero_add]
    · have hlt : offset < c.utf8Size := Nat.not_le.mp hle
      rw [wholeBefore_of_lt hlt, count_lineFeed_utf8EncodeChar_take hlt,
        Nat.sub_eq_zero_of_le hlt.le, List.take_zero]
      rfl

/-! ### Characters before an offset -/

theorem wholeBefore_isPrefix (text : List Char) (offset : ℕ) : wholeBefore text offset <+: text := by
  induction text generalizing offset with
  | nil => exact List.prefix_rfl
  | cons c rest ih =>
    by_cases h : c.utf8Size ≤ offset
    · rw [wholeBefore_of_le h]
      exact List.cons_prefix_cons.mpr ⟨rfl, ih _⟩
    · rw [wholeBefore_of_lt (Nat.not_le.mp h)]
      exact List.nil_prefix

/-- The characters before an offset take no more bytes than that. -/
theorem length_flatMap_wholeBefore_le (text : List Char) (offset : ℕ) :
    ((wholeBefore text offset).flatMap String.utf8EncodeChar).length ≤ offset := by
  induction text generalizing offset with
  | nil => exact Nat.zero_le _
  | cons c rest ih =>
    by_cases h : c.utf8Size ≤ offset
    · have := ih (offset - c.utf8Size)
      rw [wholeBefore_of_le h, List.flatMap_cons, List.length_append,
        String.length_utf8EncodeChar]
      omega
    · rw [wholeBefore_of_lt (Nat.not_le.mp h)]
      exact Nat.zero_le _

theorem length_le_length_flatMap (text : List Char) :
    text.length ≤ (text.flatMap String.utf8EncodeChar).length := by
  induction text with
  | nil => exact Nat.le_refl _
  | cons c rest ih =>
    have := c.utf8Size_pos
    rw [List.flatMap_cons, List.length_append, String.length_utf8EncodeChar, List.length_cons]
    omega

/-- As long as every character takes one byte, so many lie before an offset. -/
theorem prefix_wholeBefore {text before : List Char} (hbegins : before <+: text)
    (h : ∀ c ∈ before, c.utf8Size = 1) {offset : ℕ} (hle : before.length ≤ offset) :
    before <+: wholeBefore text offset := by
  obtain ⟨rest, rfl⟩ := hbegins
  induction before generalizing offset with
  | nil => exact List.nil_prefix
  | cons c before ih =>
    have hone : c.utf8Size = 1 := h c List.mem_cons_self
    rw [List.length_cons] at hle
    rw [List.cons_append, wholeBefore_of_le (by omega), hone]
    exact List.cons_prefix_cons.mpr
      ⟨rfl, ih (fun c hc => h c (List.mem_cons_of_mem _ hc)) (by omega)⟩

theorem length_textBefore_le (source : String) (offset : ℕ) :
    (textBefore source offset).length ≤ offset := by
  rw [textBefore, List.length_take]
  omega

/-- The index takes the characters before an offset to lie there, and perhaps some more. -/
theorem wholeBefore_append_overshot (source : String) (offset : ℕ) :
    wholeBefore source.toList offset ++ overshot source offset = textBefore source offset := by
  have hbegins := wholeBefore_isPrefix source.toList offset
  have hlength : (wholeBefore source.toList offset).length ≤ offset :=
    (length_le_length_flatMap _).trans (length_flatMap_wholeBefore_le _ _)
  have hbefore : wholeBefore source.toList offset <+: textBefore source offset := by
    refine List.prefix_of_prefix_length_le hbegins (List.take_prefix _ _) ?_
    have := hbegins.length_le
    have : source.length = source.toList.length := String.length_toList.symm
    rw [textBefore, List.length_take]
    omega
  rw [overshot]
  exact List.prefix_iff_eq_append.mp hbefore

/-- The line of an offset is that of the byte, and one more for every line feed that is counted too
early. -/
theorem line_position_eq (source : String) (offset : ℕ) :
    ((ofSource source).position offset).line
      = lineOfByte source offset + (overshot source offset).count '\n' := by
  have hcount : ((bytes source).take offset).count 0x0a
      = (wholeBefore source.toList offset).count '\n' := by
    rw [bytes_eq, count_lineFeed_take]
  rw [line_position_eq_count, ← wholeBefore_append_overshot, List.count_append, lineOfByte, hcount]
  omega

/-- The line of an offset is right exactly if no line feed is counted too early. -/
theorem line_position_eq_iff (source : String) (offset : ℕ) :
    ((ofSource source).position offset).line = lineOfByte source offset ↔
      '\n' ∉ overshot source offset := by
  rw [line_position_eq, Nat.add_eq_left, List.count_eq_zero]

/-! ### Sources whose lines are right -/

variable {source : String} {before after : List Char} {c : Char}

/-- A line feed is counted too early only if a character of several bytes comes before it. -/
theorem exists_wide_of_mem_overshot {offset : ℕ} (h : '\n' ∈ overshot source offset) :
    ∃ before c after, source.toList = before ++ c :: after ∧ c.utf8Size ≠ 1 ∧ '\n' ∈ after := by
  obtain ⟨middle, last, hover⟩ := List.append_of_mem h
  have htext : wholeBefore source.toList offset ++ middle ++ ['\n'] <+: textBefore source offset := by
    refine ⟨last, ?_⟩
    rw [← wholeBefore_append_overshot, hover]
    simp
  have hbegins := htext.trans (List.take_prefix _ source.toList)
  by_cases hwide : ∃ c ∈ wholeBefore source.toList offset ++ middle, c.utf8Size ≠ 1
  · obtain ⟨c, hmem, hc⟩ := hwide
    obtain ⟨before, after, hsplit⟩ := List.append_of_mem hmem
    obtain ⟨rest, hsource⟩ := hbegins
    refine ⟨before, c, after ++ ['\n'] ++ rest, ?_, hc, by simp⟩
    rw [← hsource, hsplit]
    simp
  · -- otherwise the line feed itself lies before the offset in bytes
    push Not at hwide
    have hone : ∀ c ∈ wholeBefore source.toList offset ++ middle ++ ['\n'], c.utf8Size = 1 := by
      intro c hc
      obtain hc | hc := List.mem_append.mp hc
      · exact hwide c hc
      · obtain rfl := List.mem_singleton.mp hc
        rfl
    have hle := htext.length_le.trans (length_textBefore_le source offset)
    have hless := (prefix_wholeBefore hbegins hone hle).length_le
    simp only [List.length_append, List.length_singleton] at hless
    omega

/-- The characters at the beginning of a source are those before their number. -/
theorem textBefore_of_append (hsource : source.toList = before ++ after) :
    textBefore source before.length = before := by
  have hlength : source.length = before.length + after.length := by
    rw [← String.length_toList, hsource, List.length_append]
  have hcount : (max 0 (min (before.length : Int) source.length)).toNat = before.length := by omega
  rw [textBefore, hcount, hsource, List.take_left]

/-- If the characters that the index takes to lie before an offset are of more bytes, it takes the
last one of them to lie there too early. -/
theorem mem_overshot_of_lt {offset : ℕ} (htext : textBefore source offset = before ++ [c])
    (hlt : offset < ((before ++ [c]).flatMap String.utf8EncodeChar).length) :
    c ∈ overshot source offset := by
  have hbefore := wholeBefore_append_overshot source offset
  rw [htext] at hbefore
  rcases List.eq_nil_or_concat (overshot source offset) with hnone | ⟨front, final, hover⟩
  · rw [hnone, List.append_nil] at hbefore
    have hbytes := length_flatMap_wholeBefore_le source.toList offset
    rw [hbefore] at hbytes
    omega
  · rw [hover, List.concat_eq_append, ← List.append_assoc] at hbefore
    obtain rfl : final = c := List.singleton_inj.mp (List.append_inj_right' hbefore rfl)
    rw [hover, List.concat_eq_append]
    exact List.mem_concat_self

/-- After a character of several bytes, a line feed is counted too early at its place among the
characters. -/
theorem mem_overshot_of_wide (hsource : source.toList = before ++ c :: after)
    (hc : c.utf8Size ≠ 1) (hafter : '\n' ∈ after) :
    ∃ offset, offset ≤ (bytes source).length ∧ '\n' ∈ overshot source offset := by
  obtain ⟨middle, last, rfl⟩ := List.append_of_mem hafter
  have hsplit : source.toList = before ++ c :: middle ++ ['\n'] ++ last := by
    rw [hsource]
    simp
  refine ⟨(before ++ c :: middle ++ ['\n']).length, ?_,
    mem_overshot_of_lt (textBefore_of_append hsplit) ?_⟩
  · have hbegins : before ++ c :: middle ++ ['\n'] <+: source.toList := ⟨last, hsplit.symm⟩
    rw [bytes_eq]
    exact hbegins.length_le.trans (length_le_length_flatMap _)
  · have hwide : 1 < c.utf8Size := Nat.lt_of_le_of_ne c.utf8Size_pos hc.symm
    have hfeed : Char.utf8Size '\n' = 1 := rfl
    have := length_le_length_flatMap before
    have := length_le_length_flatMap middle
    simp only [List.flatMap_append, List.flatMap_cons, List.flatMap_nil, List.append_nil,
      List.length_append, List.length_cons, List.length_nil, String.length_utf8EncodeChar]
    omega

/-- **Lines in bytes.**  The line of an offset is that of the byte there, and one more for every
line feed that lies before the offset in characters and not in bytes.  So the lines of all bytes are
right exactly if no line feed comes after a character of several bytes. -/
theorem lines_of_bytes (source : String) :
    (∀ offset : ℕ, ((ofSource source).position offset).line
      = lineOfByte source offset + (overshot source offset).count '\n') ∧
    ((∀ offset : ℕ, offset ≤ (bytes source).length →
        ((ofSource source).position offset).line = lineOfByte source offset) ↔
      ∀ before c after, source.toList = before ++ c :: after → c.utf8Size ≠ 1 → '\n' ∉ after) := by
  refine ⟨line_position_eq source, ?_⟩
  constructor
  · intro hlines before c after hsource hc hafter
    obtain ⟨offset, hle, hmem⟩ := mem_overshot_of_wide hsource hc hafter
    exact (line_position_eq_iff source offset).mp (hlines offset hle) hmem
  · intro hwide offset _
    refine (line_position_eq_iff source offset).mpr fun hmem => ?_
    obtain ⟨before, c, after, hsource, hc, hafter⟩ := exists_wide_of_mem_overshot hmem
    exact hwide before c after hsource hc hafter

/-- A source with an accent in its first line. -/
def accented : String := "// é\n\ncontract C {}\n"

/-- Byte 6 of it is the second line feed, but character 6 is the first one of the third line. -/
theorem accented_line :
    6 ≤ (bytes accented).length ∧ lineOfByte accented 6 = 2 ∧
      (ofSource accented).position 6 = ⟨3, 1⟩ := by
  decide +kernel

end TraceDebugger.LineIndex
