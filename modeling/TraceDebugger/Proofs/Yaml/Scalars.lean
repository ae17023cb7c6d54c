/-
Scalars on the line of their key.

A scalar is written so that the reader finds it again: null, the switch words and integers as they
are, and texts without quotes where that can be, or else between quotes.

* `Denotes` — a body is read as a scalar (`PlainBody.denotes`, `Spells.denotes`);
* `ofPlain_decimal` — the decimal text of a number stands for the number;
* `denotes_write` — what is written for a scalar is read as that scalar;
* `blockValue_denotes` — so it is after the colon of a key.
-/
import TraceDebugger.Proofs.Text.Decimal
import TraceDebugger.Proofs.Yaml.PlainTexts
import TraceDebugger.Proofs.Yaml.Quotes
import TraceDebugger.Yaml.Reader

namespace TraceDebugger.Yaml

variable {least : Int} {body text more : List Char} {c quote : Char} {value : Scalar}

/-- A body is read as a scalar, wherever it stands on a line. -/
structure Denotes (least : Int) (body : List Char) (value : Scalar) : Prop where
  reads : ∀ more, Follows least more → ∀ column : ℕ, least ≤ column →
    ∃ word, readLeaf false false least { rest := body ++ '\n' :: more, column, fresh := false }
        = some word ∧
      word.leaf.value = .ok value ∧ word.after.next = lineStart more ∧
        word.after.passSpaces.atColon = false
  printed : ∀ c ∈ body, Printed c
  /-- It does not begin like a collection, a tag, a comment or an item of a sequence. -/
  begins : ∃ c rest, body = c :: rest ∧ Inked c ∧ c ∉ ['#', '[', '\x7b', '!'] ∧
    (c = '-' → ∀ more, endsHere (rest ++ more) = false)

/-! ### The place after a scalar -/

theorem next_lineStart (h : Follows least more) : (lineStart more).next = lineStart more := by
  cases h with
  | nil => rfl
  | entry hcount hleast hc hcomment hcolon =>
    rw [lineStart_entry hc hcomment, Mark.next, skipFrom_inked hc hcomment]

theorem passSpaces_inked (hc : c ≠ ' ') (column : ℕ) (fresh : Bool) (rest : List Char) :
    Mark.passSpaces { rest := c :: rest, column, fresh } = { rest := c :: rest, column, fresh } :=
  passSpaces_replicate 0 hc column fresh rest

theorem atColon_lineStart (h : Follows least more) :
    (lineStart more).passSpaces.atColon = false := by
  cases h with
  | nil => rfl
  | @entry count c rest hcount hleast hc hcomment hcolon =>
    rw [lineStart_entry hc hcomment, passSpaces_inked hc.2]
    simp [Mark.atColon, hcolon]

/-! ### Quotes -/

theorem quotedText_of_spells (h : Spells quote body text) (hmore : more.head? ≠ some quote)
    (column : ℕ) (fresh : Bool) :
    ∃ column' oneLine,
      quotedText quote { rest := quote :: (body ++ quote :: more), column, fresh }
        = some { chars := text, after := { rest := more, column := column', fresh := false }
                 oneLine } := by
  have hlength : body.length < (quote :: (body ++ quote :: more)).length + 1 := by
    simp only [List.length_cons, List.length_append]
    omega
  exact h.reads more hmore _ hlength [] (column + 1) false true

/-- A text between quotes. -/
theorem Spells.denotes (h : Spells quote body text) (hquote : quote = '\'' ∨ quote = '"') :
    Denotes least (quote :: (body ++ [quote])) (.str (String.ofList text)) where
  reads more hmore column hleast := by
    -- a quote that is followed by another one would be a quote inside the text
    have hhead : ('\n' :: more).head? ≠ some quote := by
      rcases hquote with rfl | rfl
      · exact fun heq => absurd (Option.some.inj heq) (by decide)
      · exact fun heq => absurd (Option.some.inj heq) (by decide)
    obtain ⟨column', oneLine, htext⟩ := quotedText_of_spells h hhead column false
    have hassoc : quote :: (body ++ [quote]) ++ '\n' :: more
        = quote :: (body ++ quote :: '\n' :: more) := by
      rw [List.cons_append, List.append_assoc, List.singleton_append]
    refine ⟨{ leaf := ⟨String.ofList text, false⟩
              after := { rest := '\n' :: more, column := column', fresh := false }
              oneLine := oneLine && true }, ?_, rfl, rfl, ?_⟩
    · rw [hassoc]
      rcases hquote with rfl | rfl
      · simp only [readLeaf, List.head?_cons, htext]
        rfl
      · simp only [readLeaf, List.head?_cons, htext]
        rfl
    · rw [passSpaces_inked (by decide)]
      rfl
  printed := by
    have hplain : Printed quote := by
      rcases hquote with rfl | rfl
      · exact .inr (by decide)
      · exact .inr (by decide)
    simp only [List.forall_mem_cons, List.forall_mem_append]
    exact ⟨hplain, h.printed, hplain, nofun⟩
  begins := by
    refine ⟨quote, _, rfl, ?_⟩
    rcases hquote with rfl | rfl
    · exact ⟨⟨by decide, by decide⟩, by decide, fun heq => absurd heq (by decide)⟩
    · exact ⟨⟨by decide, by decide⟩, by decide, fun heq => absurd heq (by decide)⟩

/-! ### Plain texts -/

/-- A plain text may begin so, wherever it stands. -/
def BeginsPlainly (text : List Char) : Prop :=
  ∀ c tail, text = c :: tail → leadingIndicators.contains c = false ∧
    ((c = '?' || c = ':' || c = '-') = true → endsHere tail = false)

/-- The first character of a plain text is no quote, and the reader takes it for such a text. -/
theorem BeginsPlainly.reads {tail : List Char} (h : BeginsPlainly (c :: tail)) (hc : Inked c)
    (rest : List Char) (hends : endsHere tail = false → endsHere rest = false) :
    c ≠ '\'' ∧ c ≠ '"' ∧ beginsPlain false (c :: rest) = true := by
  obtain ⟨hleading, hindicator⟩ := h c tail rfl
  refine ⟨?_, ?_, ?_⟩
  · rintro rfl
    cases hleading
  · rintro rfl
    cases hleading
  · -- three of the indicators may begin a plain text, if something else follows at once
    by_cases hsign : (c = '?' || c = ':' || c = '-') = true
    · have hgoes : endsHere rest = false := hends (hindicator hsign)
      have hor : (c = '-' || (c = '?' || c = ':')) = true := by
        rwa [Bool.or_comm]
      simp only [beginsPlain, hgoes, Bool.not_false, Bool.true_and, hor, Bool.or_true]
    · have hall : (indicators.all fun d => leadingIndicators.contains d ||
          (d = '?' || d = ':' || d = '-')) = true := rfl
      have hno : indicators.contains c = false := by
        rw [← Bool.not_eq_true, List.contains_iff_mem]
        intro hmem
        rcases Bool.or_eq_true_iff.mp (List.all_eq_true.mp hall c hmem) with hlead | hsign'
        · rw [hlead] at hleading
          cases hleading
        · exact hsign hsign'
      rw [beginsPlain, hno, hc.not_isSeparator]
      rfl

/-- A plain text stands for what its form says. -/
theorem PlainBody.denotes (h : PlainBody least body text) (hbegins : BeginsPlainly text)
    (hvalue : ofPlain (String.ofList text) = .ok value) :
    Denotes least body value where
  reads more hmore column hleast := by
    obtain ⟨c, rest, tail, rfl, rfl, hc, hcomment, hends⟩ := h.begins
    obtain ⟨hsingle, hdouble, hplainly⟩ := hbegins.reads hc _ fun h => hends h ('\n' :: more)
    have hlength : (c :: rest).length < (c :: rest ++ '\n' :: more).length + 1 := by
      simp only [List.length_cons, List.length_append]
      omega
    obtain ⟨oneLine, hplain⟩ := h.reads more hmore _ hlength [] [] column false true hleast
    have htext : plainText false least { rest := c :: rest ++ '\n' :: more, column, fresh := false }
        = { chars := c :: tail, after := lineStart more, oneLine } := by
      rw [plainText, hplain]
      rfl
    -- the leaf has no quotes, so its value is the one that the plain text has
    refine ⟨leafOf true { chars := c :: tail, after := lineStart more, oneLine }, ?_, hvalue,
      next_lineStart hmore, atColon_lineStart hmore⟩
    rw [← htext, readLeaf, List.cons_append, List.head?_cons]
    split
    case h_1 heq => exact absurd (Option.some.inj heq) hsingle
    case h_2 heq => exact absurd (Option.some.inj heq) hdouble
    case h_3 =>
      rw [if_pos hplainly]
      rfl
  printed := h.printed
  begins := by
    obtain ⟨c, rest, tail, rfl, rfl, hc, hcomment, hends⟩ := h.begins
    obtain ⟨hleading, hindicator⟩ := hbegins c tail rfl
    refine ⟨c, rest, rfl, hc, ?_, ?_⟩
    · -- none of the marks that a value must not begin with may begin a plain text
      have hall : (['#', '[', '\x7b', '!'].all leadingIndicators.contains) = true := rfl
      intro hmem
      rw [List.all_eq_true.mp hall c hmem] at hleading
      cases hleading
    · rintro rfl
      exact hends (hindicator (by decide))

/-! ### Integers -/

theorem digitsValue_digits {digits : List Char} (h : ∀ c ∈ digits, c.isDigit = true) :
    digitsValue 10 digits = Nat.ofDigitChars 10 digits 0 := by
  have hfold : ∀ (ds : List Char) (value : ℕ), (∀ c ∈ ds, c.isDigit = true) →
      (ds.filterMap Text.hexValue?).foldl (fun value d => 10 * value + d) value
        = Nat.ofDigitChars 10 ds value := by
    intro ds
    induction ds with
    | nil => exact fun _ _ => rfl
    | cons c rest ih =>
      intro value hds
      rw [List.filterMap_cons, Text.hexValue?_of_isDigit (hds c List.mem_cons_self),
        List.foldl_cons,
        ih _ fun d hd => hds d (List.mem_cons_of_mem _ hd), Nat.ofDigitChars_cons]
      rfl
  exact hfold digits 0 h

theorem allDigits_digits {digits : List Char} (h : ∀ c ∈ digits, c.isDigit = true) :
    allDigits 10 digits = true := by
  refine List.all_eq_true.mpr fun c hc => ?_
  obtain ⟨hle, hle'⟩ := Text.toNat_of_isDigit (h c hc)
  rw [Text.hexValue?_of_isDigit (h c hc)]
  simp
  omega

/-- The digits of a number that is not zero do not begin with zero. -/
theorem head_toDigits {n : ℕ} (h : n ≠ 0) : (Nat.toDigits 10 n).head? ≠ some '0' := by
  induction n using Nat.strong_induction_on with
  | h n ih =>
    by_cases hn : n < 10
    · have hall : ∀ d < 10, d ≠ 0 → Nat.digitChar d ≠ '0' := by decide
      rw [Nat.toDigits_of_lt_base hn]
      exact fun heq => hall n hn h (Option.some.inj heq)
    · have hrest := ih (n / 10) (by omega) (by omega)
      have hne : Nat.toDigits 10 (n / 10) ≠ [] := Nat.toDigits_ne_nil
      rw [Nat.toDigits_of_base_le (by decide) (Nat.not_lt.mp hn), List.head?_append_of_ne_nil _ hne]
      exact hrest

theorem unsigned?_toDigits (n : ℕ) : unsigned? (Nat.toDigits 10 n) = some n := by
  have hdigits : ∀ c ∈ Nat.toDigits 10 n, c.isDigit = true := fun c hc =>
    Nat.isDigit_of_mem_toDigits (by decide) (by decide) hc
  by_cases hn : n = 0
  · rw [hn]
    rfl
  -- other numerals than decimal ones begin with a zero, and those to base 60 have a colon
  have hhead := head_toDigits hn
  have hvalue := digitsValue_digits hdigits
  rw [Nat.ofDigitChars_toDigits (by decide) (by decide)] at hvalue
  have hcolon : ':' ∉ Nat.toDigits 10 n := fun hmem => by
    cases hdigits ':' hmem
  have hsplit := Text.splitBy_of_not_mem hcolon
  have hdecimal : isDecimal (Nat.toDigits 10 n) = true := by
    obtain ⟨c, rest, hcons⟩ := List.exists_cons_of_ne_nil (Nat.toDigits_ne_nil (b := 10) (n := n))
    rw [hcons] at hdigits ⊢
    rw [isDecimal, hdigits c List.mem_cons_self,
      allDigits_digits fun d hd => hdigits d (List.mem_cons_of_mem _ hd)]
    rfl
  generalize Nat.toDigits 10 n = digits at *
  unfold unsigned?
  split
  · exact absurd rfl hhead
  · exact absurd rfl hhead
  · exact absurd rfl hhead
  · exact absurd rfl hhead
  · rw [hsplit]
    simp only [hdecimal, if_true, hvalue]

theorem integer?_decimal (n : Int) : integer? (Text.decimal n) = some n := by
  have hdigits : ∀ (m : ℕ) (c : Char), c ∈ Nat.toDigits 10 m → c.isDigit = true := fun m c hc =>
    Nat.isDigit_of_mem_toDigits (by decide) (by decide) hc
  cases n with
  | ofNat m =>
    -- the first character is a digit and no sign
    have hsign : splitSign (Nat.toDigits 10 m) = (false, Nat.toDigits 10 m) := by
      rw [splitSign]
      · intro rest heq
        have hc := hdigits m '-' (heq ▸ List.mem_cons_self)
        cases hc
      · intro rest heq
        have hc := hdigits m '+' (heq ▸ List.mem_cons_self)
        cases hc
    rw [Int.ofNat_eq_natCast, Text.decimal_natCast]
    simp only [integer?, hsign, unsigned?_toDigits]
    rfl
  | negSucc m =>
    rw [Text.decimal_negSucc]
    simp only [integer?, splitSign, unsigned?_toDigits]
    rfl

/-- A decimal text begins with a digit or with a sign before one. -/
theorem decimal_cases (n : Int) :
    ∃ c rest, Text.decimal n = c :: rest ∧
      (c.isDigit = true ∨ c = '-' ∧ ∃ d more, rest = d :: more ∧ d.isDigit = true) := by
  have hdigits : ∀ m : ℕ, ∃ c rest, Nat.toDigits 10 m = c :: rest ∧ c.isDigit = true := by
    intro m
    obtain ⟨c, rest, hcons⟩ := List.exists_cons_of_ne_nil (Nat.toDigits_ne_nil (b := 10) (n := m))
    have hmem : c ∈ Nat.toDigits 10 m := hcons ▸ List.mem_cons_self
    exact ⟨c, rest, hcons, Nat.isDigit_of_mem_toDigits (by decide) (by decide) hmem⟩
  cases n with
  | ofNat m =>
    obtain ⟨c, rest, hcons, hc⟩ := hdigits m
    exact ⟨c, rest, (Text.decimal_natCast m).trans hcons, .inl hc⟩
  | negSucc m =>
    obtain ⟨d, more, hcons, hd⟩ := hdigits (m + 1)
    exact ⟨'-', _, Text.decimal_negSucc m, .inr ⟨rfl, d, more, hcons, hd⟩⟩

/-- The decimal text of a number stands for the number. -/
theorem ofPlain_decimal (n : Int) : ofPlain (String.ofList (Text.decimal n)) = .ok (.int n) := by
  obtain ⟨c, rest, hcons, hc⟩ := decimal_cases n
  have hmark : (c.isDigit || c == '-') = true := by
    rcases hc with hc | ⟨rfl, -⟩
    · rw [hc]
      rfl
    · rfl
  have hwords : ∀ words : List String,
      (∀ word ∈ words, (word.toList.head?.any fun d => d.isDigit || d == '-') = false) →
      words.contains (String.ofList (Text.decimal n)) = false := by
    intro words hwords
    rw [← Bool.not_eq_true, List.contains_iff_mem]
    intro hmem
    have hno := hwords _ hmem
    rw [String.toList_ofList, hcons, List.head?_cons, Option.any_some, hmark] at hno
    cases hno
  rw [ofPlain, hwords nullWords (by decide), hwords trueWords (by decide),
    hwords falseWords (by decide), hwords reserved (by decide), String.toList_ofList, ofForm?,
    integer?_decimal]
  rfl

/-! ### Writing -/

/-- The character is a letter, a digit or an underscore. -/
def IsNameChar (c : Char) : Prop := c.isAlphanum = true ∨ c = '_'

instance : DecidablePred IsNameChar :=
  fun c => inferInstanceAs (Decidable (c.isAlphanum = true ∨ c = '_'))

theorem IsNameChar.inked (h : IsNameChar c) : Inked c := by
  rcases h with h | rfl
  swap
  · exact ⟨by decide, by decide⟩
  have hbounds : 48 ≤ c.toNat ∧ c.toNat ≤ 122 := by
    have hranges : (decide (65 ≤ c.val ∧ c.val ≤ 90) || (97 ≤ c.val && c.val ≤ 122) ||
        (48 ≤ c.val && c.val ≤ 57)) = true := h
    simp only [Bool.or_eq_true, Bool.and_eq_true, decide_eq_true_eq,
      UInt32.le_iff_toNat_le] at hranges
    have htoNat : c.toNat = c.val.toNat := rfl
    simp at hranges
    omega
  refine ⟨?_, ?_⟩
  · rw [isPlainAscii, Bool.and_eq_true, decide_eq_true_eq, decide_eq_true_eq]
    exact ⟨show 32 ≤ c.toNat by omega, show c.toNat ≤ 126 by omega⟩
  · rintro rfl
    cases h

/-- A name is made of letters, digits and underscores. -/
structure IsName (name : List Char) : Prop where
  ne_nil : name ≠ []
  chars : ∀ c ∈ name, IsNameChar c

namespace IsName

variable {name : List Char}

theorem of_all (hne : name ≠ []) (hall : (name.all fun c => IsNameChar c) = true) : IsName name :=
  ⟨hne, fun c hc => of_decide_eq_true (List.all_eq_true.mp hall c hc)⟩

theorem not_mem (h : IsName name) (hc : ¬ IsNameChar c) : c ∉ name := fun hmem =>
  hc (h.chars c hmem)

theorem printed (h : IsName name) : ∀ c ∈ name, Printed c := fun c hc => .inr (h.chars c hc).inked.1

theorem isWord (h : IsName name) : IsWord name where
  ne_nil := h.ne_nil
  inked c hc := (h.chars c hc).inked
  head heq := h.not_mem (by decide) (List.mem_of_head? heq)
  last heq := h.not_mem (by decide) (List.mem_of_getLast? heq)

theorem beginsPlainly (h : IsName name) : BeginsPlainly name := by
  rintro c tail rfl
  refine ⟨?_, fun hsign => ?_⟩
  · have hall : (leadingIndicators.all fun d => ¬ IsNameChar d) = true := by decide
    rw [← Bool.not_eq_true, List.contains_iff_mem]
    intro hmem
    have hno := of_decide_eq_true (List.all_eq_true.mp hall c hmem)
    exact h.not_mem hno List.mem_cons_self
  · have hnot : ¬ IsNameChar c := by
      simp only [Bool.or_eq_true, decide_eq_true_eq] at hsign
      rcases hsign with (rfl | rfl) | rfl <;> decide
    exact absurd List.mem_cons_self (h.not_mem hnot)

/-- A name stands for what its form says. -/
theorem denotes (h : IsName name) (hvalue : ofPlain (String.ofList name) = .ok value) :
    Denotes least name value :=
  (PlainBody.single h.isWord).denotes h.beginsPlainly hvalue

end IsName

/-- A text that can stand without quotes. -/
structure IsPlain (cs : List Char) : Prop where
  value : ofPlain (String.ofList cs) = .ok (.str (String.ofList cs))
  begins : BeginsPlainly cs
  inner : hasInnerIndicator ' ' cs = false
  head : cs.head? ≠ some ' '
  last : cs.getLast? ≠ some ' '
  no_line : ∀ c ∈ cs, endsTextLine c = false
  printed : ∀ c ∈ cs, Printed c

theorem isPlain_of_canBePlain {cs : List Char} (h : canBePlain cs = true) : IsPlain cs := by
  simp only [canBePlain, Bool.and_eq_true, Bool.not_eq_true', beq_iff_eq] at h
  obtain ⟨⟨⟨⟨⟨hread, hends⟩, hescape⟩, hlines⟩, hindicator⟩, -⟩ := h
  have hvalue : ofPlain (String.ofList cs) = .ok (.str (String.ofList cs)) := by
    cases hplain : ofPlain (String.ofList cs) with
    | error flaw =>
      rw [hplain] at hread
      cases hread
    | ok value =>
      rw [hplain] at hread
      exact congrArg Except.ok (Option.some.inj hread)
  have hne : cs ≠ [] := by
    rintro rfl
    cases hvalue
  obtain ⟨c, tail, rfl⟩ := List.exists_cons_of_ne_nil hne
  obtain ⟨hhead, hlast⟩ := Bool.or_eq_false_iff.mp hends
  obtain ⟨hfirst, hrest⟩ := Bool.or_eq_false_iff.mp hindicator
  obtain ⟨hleading, hsign⟩ := Bool.or_eq_false_iff.mp hfirst
  refine {
    value := hvalue
    begins := ?_
    inner := ?_
    head := ?_
    last := ?_
    no_line := fun d hd => Bool.eq_false_iff.mpr (List.any_eq_false.mp hlines d hd)
    printed := printed_of_not_needsEscape hescape }
  · -- a sign at the beginning is followed by something else than a blank
    rintro d rest heq
    obtain ⟨rfl, rfl⟩ := List.cons.inj heq
    refine ⟨hleading, fun hmarks => ?_⟩
    have hmarks' : (c = '?' || c = ':' || c = '-') = true := hmarks
    rwa [hmarks', Bool.true_and] at hsign
  · have hcomment : c ≠ '#' := by
      rintro rfl
      cases hleading
    -- the inner ones are looked for from the second character on, and the first is none either
    have hcolon : (c = ':' && endsHere tail) = false := by
      by_cases hc : c = ':'
      · simpa [hc] using hsign
      · simp [hc]
    rw [hasInnerIndicator, hcolon, hrest, decide_eq_false hcomment]
    rfl
  · intro heq
    rw [heq] at hhead
    cases hhead
  · intro heq
    rw [heq] at hlast
    cases hlast

/-- A text that can stand without quotes is read as a text. -/
theorem IsPlain.denotes {cs : List Char} (h : IsPlain cs) {indent : ℕ} (hindent : 0 < indent)
    (hleast : least ≤ indent) (column : ℕ) :
    Denotes least (writePlain indent { column } (runs cs)).reversed.reverse
      (.str (String.ofList cs)) := by
  have hline : '\n' ∉ cs := fun hmem => absurd (h.no_line _ hmem) (by decide)
  -- a text in one line has no runs but words and spaces
  have hruns : runs cs = textRuns cs := runs_eq_textRuns h.no_line
  have hflatten : (runs cs).flatten = cs := by rw [hruns, flatten_textRuns]
  have halternating : Alternating (runs cs) := by
    rw [hruns]
    exact alternating_textRuns h.printed (apart_of_no_lines fun c hc heq => hline (heq ▸ hc))
  have hne : runs cs ≠ [] := by
    intro hnil
    rw [hnil] at hflatten
    have hvalue := h.value
    rw [← hflatten] at hvalue
    cases hvalue
  obtain ⟨body, hbody, hplain⟩ := writePlain_plainBody hindent hleast (runs cs) hne halternating
    (hflatten.symm ▸ hline) (hflatten.symm ▸ h.head) (hflatten.symm ▸ h.last)
    (hflatten.symm ▸ h.inner) { column }
  rw [hflatten] at hplain
  rw [hbody, List.append_nil, List.reverse_reverse]
  exact hplain.denotes h.begins h.value

/-- **What is written for a text is read as the text.** -/
theorem denotes_writeText {indent : ℕ} (hindent : 0 < indent) (hwidth : indent < lineWidth)
    (hleast : least ≤ indent) (column : ℕ) (text : String) :
    Denotes least (writeText column indent text).toList (.str text) := by
  rw [writeText, String.toList_ofList]
  have htext : text = String.ofList text.toList := (String.ofList_toList).symm
  -- plain if it can be, else between single quotes if it can be, else with escapes
  split
  case isTrue hplain =>
    have h := (isPlain_of_canBePlain hplain).denotes hindent hleast column
    rwa [← htext] at h
  split
  case isTrue hsingle =>
    have hprinted : ∀ c ∈ text.toList, Printed c := by
      simp only [canBeSingle, Bool.and_eq_true, Bool.not_eq_true'] at hsingle
      exact printed_of_not_needsEscape hsingle.2
    obtain ⟨body, hbody, hspells⟩ := writeSingle_spells hindent
      (alternating_textRuns hprinted (apart_of_canBeSingle hsingle))
      { reversed := ['\''], column := column + 1 } true
    rw [flatten_textRuns] at hspells
    have h : Denotes least _ _ := hspells.denotes (.inl rfl)
    rw [← htext] at h
    have hwritten : ((writeSingle indent { reversed := ['\''], column := column + 1 } true
        (textRuns text.toList)).put ['\'']).reversed.reverse = '\'' :: (body ++ ['\'']) := by
      rw [Written.put, hbody]
      simp
    rwa [hwritten]
  case isFalse =>
    obtain ⟨body, hbody, hcontinues, -⟩ := writeDouble_spells hindent hwidth text.toList
      { reversed := ['"'], column := column + 1 } [] false
    have h : Denotes least _ _ := hcontinues.spells.denotes (.inr rfl)
    rw [← htext] at h
    have hwritten : ((writeDouble indent { reversed := ['"'], column := column + 1 } [] false
        text.toList).put ['"']).reversed.reverse = '"' :: (body ++ ['"']) := by
      rw [Written.put, hbody]
      simp
    rwa [hwritten]

/-- The decimal text of a number is read as the number. -/
theorem denotes_decimal (n : Int) : Denotes least (Text.decimal n) (.int n) := by
  have hchar : ∀ c ∈ Text.decimal n, IsNameChar c ∨ c = '-' := fun c hc =>
    (Text.mem_decimal hc).imp_left fun hdigit => .inl (by rw [Char.isAlphanum, hdigit, Bool.or_true])
  have hword : IsWord (Text.decimal n) := {
    ne_nil := Text.decimal_ne_nil n
    inked := fun c hc => by
      rcases hchar c hc with hname | rfl
      · exact hname.inked
      · exact ⟨by decide, by decide⟩
    head := fun heq => absurd (hchar _ (List.mem_of_head? heq)) (by decide)
    last := fun heq => absurd (hchar _ (List.mem_of_getLast? heq)) (by decide) }
  have hbegins : BeginsPlainly (Text.decimal n) := by
    intro c tail heq
    obtain ⟨c', rest, hcons, hc⟩ := decimal_cases n
    obtain ⟨rfl, rfl⟩ := List.cons.inj (hcons.symm.trans heq)
    rcases hc with hdigit | ⟨rfl, d, more, rfl, hdigit⟩
    · have hname : IsName [c'] := ⟨List.cons_ne_nil _ _, List.forall_mem_singleton.mpr
        (.inl (by rw [Char.isAlphanum, hdigit, Bool.or_true]))⟩
      obtain ⟨hleading, hsign⟩ := hname.beginsPlainly c' [] rfl
      exact ⟨hleading, fun hmark => absurd (hsign hmark) (by decide)⟩
    · -- a sign has a digit after it
      have hinked : Inked d :=
        IsNameChar.inked (.inl (by rw [Char.isAlphanum, hdigit, Bool.or_true]))
      exact ⟨by decide, fun _ => hinked.not_isSeparator⟩
  exact (PlainBody.single hword).denotes hbegins (ofPlain_decimal n)

/-- **What is written for a scalar is read as the scalar.** -/
theorem denotes_write {indent : ℕ} (hindent : 0 < indent) (hwidth : indent < lineWidth)
    (hleast : least ≤ indent) (column : ℕ) (value : Simple) :
    Denotes least (value.write column indent).toList value.scalar := by
  have hword : ∀ (word : String) {scalar : Scalar}, IsName word.toList →
      ofPlain (String.ofList word.toList) = .ok scalar → Denotes least word.toList scalar :=
    fun _ _ hname hvalue => hname.denotes hvalue
  cases value with
  | null => exact hword "null" (.of_all (by decide) (by decide)) rfl
  | bool b =>
    cases b with
    | true => exact hword "true" (.of_all (by decide) (by decide)) rfl
    | false => exact hword "false" (.of_all (by decide) (by decide)) rfl
  | int n => exact denotes_decimal n
  | str text => exact denotes_writeText hindent hwidth hleast column text

/-! ### After a key -/

/-- A scalar is read after the colon of its key and a space. -/
theorem blockValue_denotes {parent : Int} (h : Denotes (parent + 1) body value)
    (hmore : Follows (parent + 1) more) {column : ℕ} (hcolumn : parent ≤ column) (fuel : ℕ) :
    ∃ leaf after, leaf.value = .ok value ∧ blockValue (fuel + 2) parent true
        { rest := ' ' :: (body ++ '\n' :: more), column, fresh := false }
      = some (.leaf leaf, after) ∧ after.next = lineStart more := by
  obtain ⟨c, rest, rfl, hc, hmarks, hitem⟩ := h.begins
  obtain ⟨word, hread, hvalue, hnext, hcolon⟩ := h.reads more hmore (column + 1)
    (by push_cast; omega)
  -- the first character is no mark of a comment, a flow collection or a tag, and of no item
  have hcomment : c ≠ '#' := fun heq => hmarks (heq ▸ by simp)
  have hlist : c ≠ '[' := fun heq => hmarks (heq ▸ by simp)
  have hmap : c ≠ '\x7b' := fun heq => hmarks (heq ▸ by simp)
  have htag : c ≠ '!' := fun heq => hmarks (heq ▸ by simp)
  rw [List.cons_append] at hread ⊢
  have hrest := fun heq => hitem heq ('\n' :: more)
  generalize rest ++ '\n' :: more = tail at hread hrest ⊢
  have hstart : Mark.next { rest := ' ' :: c :: tail, column, fresh := false }
      = { rest := c :: tail, column := column + 1, fresh := false } := by
    rw [Mark.next, Mark.skipFrom, if_pos rfl, skipFrom_inked hc hcomment]
  have hend :
      Mark.atDocumentEnd { rest := c :: tail, column := column + 1, fresh := false } = false := by
    simp [Mark.atDocumentEnd, Mark.atEnd, Mark.atMarker]
  have hnoItem : Mark.atItem { rest := c :: tail, column := column + 1, fresh := false } = false := by
    rw [Mark.atItem]
    split
    case h_1 heq =>
      obtain ⟨rfl, rfl⟩ := List.cons.inj heq
      exact hrest rfl
    case h_2 => rfl
  have hnoTag : readTag { rest := c :: tail, column := column + 1, fresh := false }
      = some (false, { rest := c :: tail, column := column + 1, fresh := false }) := by
    rw [readTag, if_neg]
    simpa using htag
  have hleaf : blockLeaf (fuel + 1) parent
    { rest := c :: tail, column := column + 1, fresh := false }
      = some (.leaf word.leaf, word.after) := by
    rw [blockLeaf, hnoTag]
    simp only [Option.bind_eq_bind, Option.bind_some, Bool.false_eq_true, if_false, Bool.false_and,
      hread, hcolon]
    rfl
  refine ⟨word.leaf, word.after, hvalue, ?_, hnext⟩
  rw [blockValue]
  simp only [hstart, hend, hnoItem, Bool.false_eq_true, if_false, Bool.false_and, List.head?_cons]
  split
  case h_1 heq => exact absurd (Option.some.inj heq) hlist
  case h_2 heq => exact absurd (Option.some.inj heq) hmap
  case h_3 => exact hleaf

end TraceDebugger.Yaml
