/-
Texts without quotes.

A plain text is made of words with spaces between them; a single space may be written as a line end
with an indentation.  The reader takes the words one after the other and ends where the next line
begins no deeper than the text may.

* `Follows` — what may come after the line of a text;
* `PlainBody` — a body is read as a plain text: a word alone (`PlainBody.single`), or a word, a gap
  and the rest (`PlainBody.blank`, `PlainBody.fold`);
* `writePlain_plainBody` — what is written is read as the text.
-/
import TraceDebugger.Proofs.Yaml.Runs

namespace TraceDebugger.Yaml

variable {least : Int} {body text more word chars gap : List Char} {c d : Char}

/-! ### The next line -/

/-- After a line comes the end of the text, or an entry that is indented less than a text could go
on. -/
inductive Follows (least : Int) : List Char → Prop
  | nil : Follows least []
  | entry {count : ℕ} {c : Char} {rest : List Char} (hcount : 0 < count)
    (hleast : (count : Int) < least)
    (hc : Inked c) (hcomment : c ≠ '#') (hcolon : c ≠ ':') :
    Follows least (List.replicate count ' ' ++ c :: rest)

/-- The place after a line. -/
def lineStart (more : List Char) : Mark := Mark.next { rest := more }

theorem skipFrom_spaces (count column : ℕ) (fresh : Bool) (rest : List Char) :
    Mark.skipFrom column fresh (List.replicate count ' ' ++ rest)
      = Mark.skipFrom (column + count) fresh rest := by
  induction count generalizing column with
  | zero => rfl
  | succ count ih =>
    rw [List.replicate_succ, List.cons_append, Mark.skipFrom, if_pos rfl, ih]
    congr 1
    omega

theorem skipFrom_inked (hc : Inked c) (hcomment : c ≠ '#') (column : ℕ) (fresh : Bool)
    (rest : List Char) :
    Mark.skipFrom column fresh (c :: rest) = { rest := c :: rest, column, fresh } := by
  have hbreak : ¬ isBreak c = true := by
    rw [isBreak_of_not_isSeparator hc.not_isSeparator]
    exact Bool.false_ne_true
  rw [Mark.skipFrom, if_neg hc.2, if_neg hbreak, if_neg hcomment]

theorem lineStart_entry (hc : Inked c) (hcomment : c ≠ '#') (count : ℕ) (rest : List Char) :
    lineStart (List.replicate count ' ' ++ c :: rest)
      = { rest := c :: rest, column := count } := by
  rw [lineStart, Mark.next, skipFrom_spaces, skipFrom_inked hc hcomment, Nat.zero_add]

theorem passSpaces_replicate (count : ℕ) (hc : c ≠ ' ') (column : ℕ) (fresh : Bool)
    (rest : List Char) :
    Mark.passSpaces { rest := List.replicate count ' ' ++ c :: rest, column, fresh }
      = { rest := c :: rest, column := column + count, fresh } := by
  have hspaces : (List.replicate count ' ' ++ c :: rest).takeWhile (· == ' ')
      = List.replicate count ' ' := by
    rw [List.takeWhile_append_of_pos, List.takeWhile_cons_of_neg, List.append_nil]
    · simpa using hc
    · intro d hd
      rw [List.eq_of_mem_replicate hd]
      rfl
  simp only [Mark.passSpaces, hspaces, List.length_replicate, List.drop_left']

/-! ### Words -/

/-- A word of a plain text, which does not begin like a comment nor end like a key. -/
structure IsWord (word : List Char) : Prop where
  ne_nil : word ≠ []
  inked : ∀ c ∈ word, Inked c
  head : word.head? ≠ some '#'
  last : word.getLast? ≠ some ':'

/-- A word is taken up to a character that ends it. -/
theorem plainLength_append {rest : List Char} (hinked : ∀ c ∈ word, Inked c)
    (hlast : word.getLast? ≠ some ':') (hstop : endsPlain false d rest = true) :
    plainLength false (word ++ d :: rest) = word.length := by
  induction word with
  | nil => rw [List.nil_append, plainLength, if_pos hstop, List.length_nil]
  | cons c tail ih =>
    have hc := (hinked c List.mem_cons_self).not_isSeparator
    have hgoes : ¬ endsPlain false c (tail ++ d :: rest) = true := by
      cases tail with
      | nil =>
        have hcolon : c ≠ ':' := by simpa using hlast
        simp [endsPlain, hc, hcolon]
      | cons e tail =>
        have he := (hinked e (List.mem_cons_of_mem _ List.mem_cons_self)).not_isSeparator
        simp [endsPlain, hc, endsHere, he]
    have hlast' : tail.getLast? ≠ some ':' := by
      cases tail with
      | nil => simp
      | cons e tail => simpa using hlast
    rw [List.cons_append, plainLength, if_neg hgoes,
      ih (fun e he => hinked e (List.mem_cons_of_mem _ he)) hlast', List.length_cons]

/-- A word and the gap after it are read, and the text may end there. -/
theorem plainFrom_succ (hword : IsWord word) {rest : List Char}
    (hstop : endsPlain false d rest = true) (fuel column : ℕ) (fresh oneLine : Bool)
    {breaks : List Char} {after : Mark}
    (hgap : plainGap (rest.length + 1) []
      { rest := d :: rest, column := column + word.length, fresh := false } = (breaks, after)) :
    plainFrom false least (fuel + 1)
        { chars, after := { rest := word ++ d :: rest, column, fresh }, oneLine } gap
      = if after.rest.length = rest.length + 1 || after.atEnd || after.rest.head? = some '#'
          || (!breaks.isEmpty && after.atDocumentEnd) || (after.column : Int) < least then
          { chars := chars ++ gap ++ word, after, oneLine }
        else
          let next := plainFrom false least fuel
            { chars := chars ++ gap ++ word, after, oneLine := oneLine && breaks.isEmpty }
            (foldBreaks ((d :: rest).take (after.column - (column + word.length))) breaks)
          if next.chars.length = (chars ++ gap ++ word).length then
            { chars := chars ++ gap ++ word, after, oneLine }
          else next := by
  have hlength := plainLength_append hword.inked hword.last hstop
  -- the word is not empty and is no comment
  have hhead : ¬ ((word ++ d :: rest).head? = some '#' || word.length = 0) = true := by
    obtain ⟨c, tail, rfl⟩ := List.exists_cons_of_ne_nil hword.ne_nil
    simpa using hword.head
  rw [plainFrom]
  simp only [hlength, if_neg hhead, List.take_left', Mark.pass, List.drop_left',
    List.length_cons, hgap,
    Bool.not_false, Bool.true_and]

/-! ### Gaps -/

theorem plainGap_spaces (hc : Inked c) (count fuel column : ℕ) (fresh : Bool) (rest : List Char) :
    plainGap (fuel + 1) [] { rest := List.replicate count ' ' ++ c :: rest, column, fresh }
      = ([], { rest := c :: rest, column := column + count, fresh }) := by
  have hbreak : isBreak c = false := isBreak_of_not_isSeparator hc.not_isSeparator
  rw [plainGap]
  simp only [passSpaces_replicate count hc.2, hbreak, Bool.false_eq_true, if_false]

/-- The document does not end before a space. -/
theorem atDocumentEnd_space (column : ℕ) (fresh : Bool) (rest : List Char) :
    Mark.atDocumentEnd { rest := ' ' :: rest, column, fresh } = false := by
  simp [Mark.atDocumentEnd, Mark.atEnd, Mark.atMarker]

theorem plainGap_indent {count : ℕ} (hcount : 0 < count) (hc : Inked c) (fuel column : ℕ)
    (fresh : Bool)
    (rest : List Char) :
    plainGap (fuel + 2) []
        { rest := '\n' :: (List.replicate count ' ' ++ c :: rest), column, fresh }
      = (['\n'], { rest := c :: rest, column := count }) := by
  obtain ⟨spaces, rfl⟩ := Nat.exists_eq_succ_of_ne_zero (Nat.ne_of_gt hcount)
  have hbreak : isBreak c = false := isBreak_of_not_isSeparator hc.not_isSeparator
  have hline : isBreak '\n' = true := rfl
  have hfirst := passSpaces_replicate 0 (c := '\n') (by decide) column fresh
    (List.replicate (spaces + 1) ' ' ++ c :: rest)
  rw [List.replicate_zero, List.nil_append] at hfirst
  have hnot : Mark.atDocumentEnd
      { rest := List.replicate (spaces + 1) ' ' ++ c :: rest, column := 0, fresh := true } = false :=
    atDocumentEnd_space 0 true _
  rw [plainGap]
  simp only [Nat.succ_eq_add_one, hfirst, hline, if_true, hnot, Bool.false_eq_true, if_false,
    List.nil_append]
  rw [plainGap]
  simp only [passSpaces_replicate (spaces + 1) hc.2, hbreak, Bool.false_eq_true, if_false,
    Nat.zero_add]

/-- The gap at the end of a line reaches to the place after it. -/
theorem plainGap_line (h : Follows least more) (column : ℕ) (fresh : Bool) :
    plainGap (more.length + 1) [] { rest := '\n' :: more, column, fresh } =
      (['\n'], lineStart more) := by
  cases h with
  | nil => rfl
  | @entry count c rest hcount hleast hc hcomment hcolon =>
    have hlength : (List.replicate count ' ' ++ c :: rest).length = count + rest.length + 1 := by
      simp
      omega
    rw [lineStart_entry hc hcomment, hlength]
    exact plainGap_indent hcount hc (count + rest.length) column fresh rest

/-! ### Bodies -/

/-- A body is read as a plain text, wherever it stands, up to the next line. -/
structure PlainBody (least : Int) (body text : List Char) : Prop where
  reads : ∀ more, Follows least more → ∀ fuel, body.length < fuel →
    ∀ (chars gap : List Char) (column : ℕ) (fresh oneLine : Bool), least ≤ column →
      ∃ oneLine',
        plainFrom false least fuel
            { chars, after := { rest := body ++ '\n' :: more, column, fresh }, oneLine } gap
          = { chars := chars ++ gap ++ text, after := lineStart more, oneLine := oneLine' }
  printed : ∀ c ∈ body, Printed c
  /-- It begins with the character with which the text begins, and before the same one. -/
  begins : ∃ c rest tail, body = c :: rest ∧ text = c :: tail ∧ Inked c ∧ c ≠ '#' ∧
    (endsHere tail = false → ∀ more, endsHere (rest ++ more) = false)

/-- A body with a word before it begins like the text with that word before it, if the text goes on
with a separator. -/
theorem IsWord.begins (h : IsWord word) (body : List Char) (hends : endsHere more = true) :
    ∃ c rest tail, word ++ body = c :: rest ∧ word ++ more = c :: tail ∧ Inked c ∧ c ≠ '#' ∧
      (endsHere tail = false → ∀ last, endsHere (rest ++ last) = false) := by
  obtain ⟨c, tail, rfl⟩ := List.exists_cons_of_ne_nil h.ne_nil
  refine ⟨c, tail ++ body, tail ++ more, rfl, rfl, h.inked c List.mem_cons_self,
    by simpa using h.head, fun hgoes last => ?_⟩
  cases tail with
  | nil =>
    rw [List.nil_append, hends] at hgoes
    cases hgoes
  | cons d tail => exact hgoes

namespace PlainBody

/-- A word alone. -/
theorem single (h : IsWord word) : PlainBody least word word where
  reads more hmore fuel hfuel chars gap column fresh oneLine hleast := by
    obtain ⟨fuel, rfl⟩ := Nat.exists_eq_succ_of_ne_zero (Nat.ne_of_gt (Nat.zero_lt_of_lt hfuel))
    refine ⟨oneLine, ?_⟩
    rw [plainFrom_succ h rfl fuel column fresh oneLine (plainGap_line hmore _ false), if_pos]
    cases hmore with
    | nil => rfl
    | @entry count c rest hcount hlt hc hcomment hcolon =>
      rw [lineStart_entry hc hcomment, Bool.or_eq_true, decide_eq_true_eq (p := (count : Int) < least)]
      exact .inr hlt
  printed c hc := .inr (h.inked c hc).1
  begins := by
    have hbegins := h.begins [] (rfl : endsHere [] = true)
    rwa [List.append_nil] at hbegins

/-- A word and a gap before a body that goes on. -/
theorem reads_succ (h : PlainBody least body text) (hword : IsWord word)
    (hmore : Follows least more)
    (between meaning breaks : List Char) {column : ℕ} (column' : ℕ) (fresh' : Bool)
    (hbetween : between ≠ []) (hstop : ∀ d, between.head? = some d → isSeparator d = true)
    (hgap : plainGap (between ++ (body ++ '\n' :: more)).length []
      { rest := between ++ (body ++ '\n' :: more), column := column + word.length, fresh := false }
        = (breaks, { rest := body ++ '\n' :: more, column := column', fresh := fresh' }))
    (hmeaning : foldBreaks ((between ++ (body ++ '\n' :: more)).take (column' - (column + word.length)))
      breaks = meaning) (hne : meaning ≠ [])
    (hend : breaks = [] ∨ 0 < column') (hleast : least ≤ column')
    {fuel : ℕ} (hfuel : (word ++ (between ++ body)).length < fuel) (fresh oneLine : Bool) :
    ∃ oneLine', plainFrom false least fuel
        { chars, after := { rest := word ++ (between ++ body) ++ '\n' :: more, column, fresh },
          oneLine } gap
      = { chars := chars ++ gap ++ (word ++ (meaning ++ text)), after := lineStart more
          oneLine := oneLine' } := by
  obtain ⟨d, rest, rfl⟩ := List.exists_cons_of_ne_nil hbetween
  obtain ⟨c, tail, -, rfl, -, hc, hcomment, -⟩ := h.begins
  obtain ⟨fuel, rfl⟩ := Nat.exists_eq_succ_of_ne_zero (Nat.ne_of_gt (Nat.zero_lt_of_lt hfuel))
  have hends : endsPlain false d (rest ++ (c :: tail ++ '\n' :: more)) = true := by
    rw [endsPlain, hstop d rfl]
    rfl
  have hlength : (c :: tail).length < fuel := by
    simp only [List.length_append, List.length_cons] at hfuel ⊢
    omega
  obtain ⟨oneLine', hrest⟩ := h.reads more hmore fuel hlength (chars ++ gap ++ word) meaning column'
    fresh' (oneLine && breaks.isEmpty) hleast
  -- nothing ends the text in the gap: no comment, no marker and no smaller indentation
  have hgoes : ¬ ((c :: tail ++ '\n' :: more).length =
    (rest ++ (c :: tail ++ '\n' :: more)).length + 1
      || Mark.atEnd { rest := c :: tail ++ '\n' :: more, column := column', fresh := fresh' }
      || (c :: tail ++ '\n' :: more).head? = some '#'
      || (!breaks.isEmpty && Mark.atDocumentEnd
        { rest := c :: tail ++ '\n' :: more, column := column', fresh := fresh' })
      || (column' : Int) < least) = true := by
    have hcolumn : breaks.isEmpty = true ∨ column' ≠ 0 := hend.imp (by rintro rfl; rfl) Nat.ne_of_gt
    rcases hcolumn with hnone | hcolumn
    · simp [hnone, hcomment, Mark.atEnd, Int.not_lt.mpr hleast]
      omega
    · simp [hcolumn, hcomment, Mark.atEnd, Mark.atDocumentEnd, Mark.atMarker, Int.not_lt.mpr hleast]
      omega
  -- and the body adds to the text, so the reader does not go back to before the gap
  have hgrows : ¬ (chars ++ gap ++ word ++ meaning ++ text).length =
    (chars ++ gap ++ word).length := by
    have hpos := List.length_pos_of_ne_nil hne
    simp only [List.length_append]
    omega
  have hassoc : word ++ (d :: rest ++ (c :: tail)) ++ '\n' :: more
      = word ++ d :: (rest ++ (c :: tail ++ '\n' :: more)) := by
    simp only [List.append_assoc, List.cons_append]
  refine ⟨oneLine', ?_⟩
  rw [hassoc, plainFrom_succ hword hends fuel column fresh oneLine hgap, if_neg hgoes]
  dsimp only
  rw [← List.cons_append, hmeaning, hrest, if_neg hgrows]
  simp only [List.append_assoc]

/-- A word, spaces and a body that goes on. -/
theorem blank (h : PlainBody least body text) (hword : IsWord word) (count : ℕ) :
    PlainBody least (word ++ (List.replicate (count + 1) ' ' ++ body))
      (word ++ (List.replicate (count + 1) ' ' ++ text)) where
  reads more hmore fuel hfuel chars gap column fresh oneLine hleast := by
    obtain ⟨c, tail, -, rfl, -, hc, -, -⟩ := h.begins
    refine h.reads_succ hword hmore (List.replicate (count + 1) ' ')
      (List.replicate (count + 1) ' ') []
      (column + word.length + (count + 1)) false (List.cons_ne_nil _ _) ?_ ?_ ?_ (List.cons_ne_nil _ _)
      (.inl rfl) ?_ hfuel fresh oneLine
    · intro d hd
      rw [← Option.some.inj hd]
      rfl
    · exact plainGap_spaces hc (count + 1) _ (column + word.length) false (tail ++ '\n' :: more)
    · -- the spaces are no line end, so that they stand for themselves
      have hcount : column + word.length + (count + 1) - (column + word.length) = count + 1 := by omega
      rw [foldBreaks, hcount, List.take_left' List.length_replicate]
    · omega
  printed c hc := by
    simp only [List.mem_append, List.mem_replicate] at hc
    rcases hc with hc | ⟨-, rfl⟩ | hc
    · exact .inr (hword.inked c hc).1
    · exact .inr (by decide)
    · exact h.printed c hc
  begins := hword.begins _ rfl

/-- A word, a line end with an indentation and a body that goes on. -/
theorem fold (h : PlainBody least body text) (hword : IsWord word) {indent : ℕ}
    (hindent : 0 < indent)
    (hleast : least ≤ indent) :
    PlainBody least (word ++ ('\n' :: (List.replicate indent ' ' ++ body)))
      (word ++ (' ' :: text)) where
  reads more hmore fuel hfuel chars gap column fresh oneLine _ := by
    obtain ⟨c, tail, -, rfl, -, hc, -, -⟩ := h.begins
    -- the line end and the indentation are passed together, and one line end reads as a space
    have hgap := plainGap_indent hindent hc (indent + tail.length + more.length + 1)
      (column + word.length) false (tail ++ '\n' :: more)
    refine h.reads_succ hword hmore ('\n' :: List.replicate indent ' ') [' '] ['\n'] indent true
      (List.cons_ne_nil _ _) ?_ ?_ rfl (List.cons_ne_nil _ _) (.inr hindent) hleast hfuel fresh oneLine
    · intro d hd
      rw [← Option.some.inj hd]
      rfl
    · have hlength : ('\n' :: List.replicate indent ' ' ++ (c :: tail ++ '\n' :: more)).length
          = indent + tail.length + more.length + 1 + 2 := by
        simp
        omega
      rw [hlength]
      exact hgap
  printed c hc := by
    simp only [List.mem_append, List.mem_cons, List.mem_replicate] at hc
    rcases hc with hc | rfl | ⟨-, rfl⟩ | hc
    · exact .inr (hword.inked c hc).1
    · exact .inl rfl
    · exact .inr (by decide)
    · exact h.printed c hc
  begins := hword.begins _ rfl

end PlainBody

/-! ### Writing -/

theorem hasInnerIndicator_append {before : Char} {cs rest : List Char}
    (h : hasInnerIndicator before (cs ++ c :: rest) = false) : hasInnerIndicator c rest = false := by
  induction cs generalizing before with
  | nil => exact (Bool.or_eq_false_iff.mp h).2
  | cons d cs ih => exact ih (Bool.or_eq_false_iff.mp h).2

/-- No colon stands before a separator. -/
theorem endsHere_of_colon {before : Char} {cs rest : List Char}
    (h : hasInnerIndicator before (cs ++ ':' :: rest) = false) : endsHere rest = false := by
  induction cs generalizing before with
  | nil =>
    have hcolon := (Bool.or_eq_false_iff.mp (Bool.or_eq_false_iff.mp h).1).1
    simpa using hcolon
  | cons d cs ih => exact ih (Bool.or_eq_false_iff.mp h).2

/-- An inked run is a word if no indicator stands in it or at its ends. -/
theorem IsInked.isWord (h : IsInked word) (rest : List Char) (hends : endsHere rest = true)
    (hinner : hasInnerIndicator ' ' (word ++ rest) = false) : IsWord word where
  ne_nil := h.1
  inked := h.2
  head := by
    obtain ⟨c, tail, rfl⟩ := List.exists_cons_of_ne_nil h.1
    rintro heq
    obtain rfl : c = '#' := by simpa using heq
    cases hinner
  last hlast := by
    obtain ⟨front, rfl⟩ := List.getLast?_eq_some_iff.mp hlast
    rw [List.append_assoc, List.singleton_append] at hinner
    rw [endsHere_of_colon hinner] at hends
    cases hends

/-- A run is written as it is, or a single space on a full line becomes a line end. -/
theorem writePlain_cons (indent : ℕ) (written : Written) (run : List Char)
    (more : List (List Char)) :
    writePlain indent written (run :: more) = writePlain indent (written.put run) more ∨
      run = [' '] ∧ writePlain indent written (run :: more)
        = writePlain indent (written.newLine indent) more := by
  rw [writePlain]
  split
  case isTrue hfold =>
    rw [Bool.and_eq_true, decide_eq_true_eq] at hfold
    exact .inr ⟨hfold.1, rfl⟩
  case isFalse => exact .inl rfl

/-- The runs of a text on one line that begins with no space begin with an inked one. -/
theorem Alternating.inked_of_head {run : List Char} {runs : List (List Char)}
    (h : Alternating (run :: runs)) (hlines : '\n' ∉ (run :: runs).flatten)
    (hspace : (run :: runs).flatten.head? ≠ some ' ') :
    IsInked run ∧ ∀ next, runs.head? = some next → IsWhite next := by
  rcases h.first with ⟨-, hinked | ⟨⟨c, count, rfl | rfl, rfl⟩, -⟩⟩
  · exact hinked
  · exact absurd rfl hspace
  · exact absurd List.mem_cons_self hlines

/-- **What is written without quotes is read as the text.** -/
theorem writePlain_plainBody {indent : ℕ} (hindent : 0 < indent) (hleast : least ≤ indent) :
    ∀ (runs : List (List Char)), runs ≠ [] → Alternating runs → '\n' ∉ runs.flatten →
      runs.flatten.head? ≠ some ' ' → runs.flatten.getLast? ≠ some ' ' →
      hasInnerIndicator ' ' runs.flatten = false → ∀ written : Written,
      ∃ body, (writePlain indent written runs).reversed = body.reverse ++ written.reversed ∧
        PlainBody least body runs.flatten
  | [], hne, _, _, _, _, _, _ => absurd rfl hne
  | [word], _, h, hlines, hhead, _, hinner, written => by
    have hword := (h.inked_of_head hlines hhead).1
    rcases writePlain_cons indent written word [] with heq | ⟨rfl, -⟩
    · refine ⟨word, by rw [heq]; rfl, ?_⟩
      rw [List.flatten_singleton]
      exact .single (hword.isWord [] rfl (by simpa using hinner))
    · exact absurd rfl (hword.2 ' ' List.mem_cons_self).2
  | word :: gap :: rest, _, h, hlines, hhead, hlast, hinner, written => by
    obtain ⟨hinked, hwhite⟩ := h.inked_of_head hlines hhead
    obtain ⟨c, count, hc, rfl⟩ := hwhite gap rfl
    have hgap := h.first.1
    have hrest := hgap.first.1
    obtain rfl : c = ' ' := by
      rcases hc with rfl | rfl
      · rfl
      · exact absurd (by simp) hlines
    -- a word and a gap are written, and there is something after them
    have hflatten : (word :: List.replicate (count + 1) ' ' :: rest).flatten
        = word ++ (List.replicate (count + 1) ' ' ++ rest.flatten) := rfl
    have hsplit : word ++ (List.replicate (count + 1) ' ' ++ rest.flatten)
        = (word ++ List.replicate count ' ') ++ ' ' :: rest.flatten := by
      rw [List.replicate_succ', List.append_assoc, List.append_assoc, List.singleton_append]
    rw [hflatten] at hlines hlast hinner
    have hword : IsWord word := hinked.isWord _ rfl hinner
    have hne : rest ≠ [] := by
      rintro rfl
      rw [hsplit] at hlast
      simp at hlast
    have hnext : rest.flatten.head? ≠ some ' ' := fun heq =>
      absurd (hgap.solid (isWhite_replicate hc count) ' ' heq) (by decide)
    rw [hsplit] at hinner hlast hlines
    have hlast' : rest.flatten.getLast? ≠ some ' ' := by
      intro heq
      rw [List.getLast?_append, List.getLast?_cons, heq] at hlast
      exact hlast rfl
    have hbodies := writePlain_plainBody hindent hleast rest hne hrest
      (fun hmem => hlines (List.mem_append_right _ (List.mem_cons_of_mem _ hmem))) hnext hlast'
      (hasInnerIndicator_append hinner)
    have hput : writePlain indent written (word :: List.replicate (count + 1) ' ' :: rest)
        = writePlain indent (written.put word) (List.replicate (count + 1) ' ' :: rest) := by
      rcases writePlain_cons indent written word (List.replicate (count + 1) ' ' :: rest) with heq |
        ⟨rfl, -⟩
      · exact heq
      · exact absurd rfl (hinked.2 ' ' List.mem_cons_self).2
    rw [hput, hflatten]
    rcases writePlain_cons indent (written.put word) (List.replicate (count + 1) ' ') rest
      with heq | ⟨hspace, heq⟩
    · obtain ⟨body, hbody, hplain⟩ := hbodies
        ((written.put word).put (List.replicate (count + 1) ' '))
      refine ⟨_, ?_, hplain.blank hword count⟩
      rw [heq, hbody]
      simp only [Written.put, List.reverse_append, List.append_assoc]
    · -- the space becomes a line end
      obtain ⟨body, hbody, hplain⟩ := hbodies ((written.put word).newLine indent)
      rw [heq, hbody, hspace]
      refine ⟨_, ?_, hplain.fold hword hindent hleast⟩
      simp only [Written.put, Written.newLine, List.reverse_append, List.reverse_cons,
        List.reverse_replicate, List.append_assoc, List.cons_append, List.nil_append]

end TraceDebugger.Yaml
