/-
Texts between quotes.

A body between quotes spells a text if the reader, wherever it stands, takes the text from it and
ends after the closing quote.  The pieces of which the writers make a body spell their parts of the
text: characters, quotes that are doubled, spaces, line ends with an indentation, escapes, and the
cuts of long lines.

* `Spells` — a body spells a text; one lemma for each piece (`Spells.character`, `Spells.doubled`,
  `Spells.space`, `Spells.lines`, `Spells.escape`, `Spells.cut`);
* `writeSingle_spells`, `writeDouble_spells` — what is written spells the text.
-/
import TraceDebugger.Proofs.Text.Hexadecimal
import TraceDebugger.Proofs.Yaml.Runs
import Mathlib.Data.List.TakeWhile

namespace TraceDebugger.Yaml

open Text

variable {quote c : Char} {piece body tail text part : List Char}

/-! ### Characters -/

/-- The text begins with no separator but spaces. -/
def Settled (cs : List Char) : Prop := Solid (cs.dropWhile (· == ' '))

theorem Solid.settled (h : Solid text) : Settled text := by
  cases text with
  | nil => exact solid_nil
  | cons c rest =>
    have hc : (c == ' ') = false := by
      rw [beq_eq_false_iff_ne]
      rintro rfl
      exact absurd (solid_cons.mp h) (by decide)
    rw [Settled, List.dropWhile_cons_of_neg (by simpa using hc)]
    exact h

theorem settled_space : Settled (' ' :: text) ↔ Settled text := Iff.rfl

/-- A settled text is some spaces with a text after them that does not begin with a separator. -/
theorem Settled.exists_spaces (h : Settled text) :
    ∃ count rest, text = List.replicate count ' ' ++ rest ∧ Solid rest := by
  refine ⟨(text.takeWhile (· == ' ')).length, text.dropWhile (· == ' '), ?_, h⟩
  have hspaces : text.takeWhile (· == ' ')
      = List.replicate (text.takeWhile (· == ' ')).length ' ' :=
    List.eq_replicate_of_mem fun c hc => by simpa using List.mem_takeWhile_imp hc
  rw [← hspaces, List.takeWhile_append_dropWhile]

/-- The blanks at the beginning of some spaces and a text that does not begin with a separator. -/
theorem takeWhile_blanks (count : ℕ) (h : Solid tail) :
    (List.replicate count ' ' ++ tail).takeWhile (fun c => c = ' ' || c = '\t')
      = List.replicate count ' ' := by
  rw [List.takeWhile_append_of_pos]
  · cases tail with
    | nil => rw [List.takeWhile_nil, List.append_nil]
    | cons c rest =>
      have hc := (Bool.or_eq_false_iff.mp (solid_cons.mp h)).1
      rw [List.takeWhile_cons_of_neg (by simpa using hc), List.append_nil]
  · intro c hc
    rw [List.eq_of_mem_replicate hc]
    rfl

/-! ### Reading -/

/-- A piece between quotes stands for a part of the text, whatever has been read before it. -/
def Stands (quote : Char) (piece tail part : List Char) : Prop :=
  ∀ (fuel : ℕ) (chars : List Char) (column : ℕ) (fresh oneLine : Bool),
    ∃ column' fresh' oneLine',
      quotedFrom quote (fuel + 1)
          { chars, after := { rest := piece ++ tail, column, fresh }, oneLine }
        = quotedFrom quote fuel
          { chars := chars ++ part, after := { rest := tail, column := column', fresh := fresh' }
            oneLine := oneLine' }

/-- The reader takes the text from the body and ends after the closing quote. -/
def ReadsAs (quote : Char) (body text : List Char) : Prop :=
  ∀ (more : List Char), more.head? ≠ some quote →
    ∀ (fuel : ℕ), body.length < fuel →
      ∀ (chars : List Char) (column : ℕ) (fresh oneLine : Bool),
        ∃ column' oneLine',
          quotedFrom quote fuel
              { chars, after := { rest := body ++ quote :: more, column, fresh }, oneLine }
            = some { chars := chars ++ text
                     after := { rest := more, column := column', fresh := false }
                     oneLine := oneLine' }

theorem readsAs_nil (quote : Char) : ReadsAs quote [] [] := by
  intro more hmore fuel hfuel chars column fresh oneLine
  obtain ⟨fuel, rfl⟩ := Nat.exists_eq_succ_of_ne_zero (Nat.ne_of_gt hfuel)
  refine ⟨column + 1, oneLine, ?_⟩
  have hsingle : ¬ (quote = '\'' && more.head? = some '\'') = true := by
    rw [Bool.and_eq_true, decide_eq_true_eq, decide_eq_true_eq]
    rintro ⟨rfl, hhead⟩
    exact hmore hhead
  rw [quotedFrom]
  simp only [List.nil_append, if_true, if_neg hsingle, List.append_nil]
  rfl

/-- A piece and what comes after it. -/
theorem Stands.readsAs (hstands : ∀ more, Stands quote piece (body ++ quote :: more) part)
    (hpiece : piece ≠ []) (h : ReadsAs quote body text) :
    ReadsAs quote (piece ++ body) (part ++ text) := by
  intro more hmore fuel hfuel chars column fresh oneLine
  have hlength : 0 < piece.length := List.length_pos_of_ne_nil hpiece
  rw [List.length_append] at hfuel
  obtain ⟨fuel, rfl⟩ := Nat.exists_eq_succ_of_ne_zero (Nat.ne_of_gt (Nat.zero_lt_of_lt hfuel))
  obtain ⟨column', fresh', oneLine', hstep⟩ := hstands more fuel chars column fresh oneLine
  obtain ⟨column'', oneLine'', hrest⟩ :=
    h more hmore fuel (by omega) (chars ++ part) column' fresh' oneLine'
  refine ⟨column'', oneLine'', ?_⟩
  rw [List.append_assoc, hstep, hrest, List.append_assoc]

/-! ### Pieces -/

theorem stands_character (hquote : c ≠ quote) (hescape : quote = '"' → c ≠ '\\')
    (hc : isSeparator c = false) (tail : List Char) : Stands quote [c] tail [c] := by
  intro fuel chars column fresh oneLine
  have hno : ¬ (c = '\\' && quote = '"') = true := by
    rw [Bool.and_eq_true, decide_eq_true_eq, decide_eq_true_eq]
    rintro ⟨heq, hq⟩
    exact hescape hq heq
  refine ⟨column + 1, false, oneLine && true, ?_⟩
  rw [quotedFrom]
  simp only [List.singleton_append, if_neg hquote, if_neg hno, hc, Bool.false_eq_true, if_false]
  rfl

theorem stands_doubled (tail : List Char) : Stands '\'' ['\'', '\''] tail ['\''] := by
  intro fuel chars column fresh oneLine
  exact ⟨column + 2, false, oneLine && true, rfl⟩

/-- Spaces up to something that is no separator are taken as they are. -/
theorem quotedFrom_spaces (hquote : quote ≠ ' ') (count : ℕ) (hne : tail ≠ []) (htail : Solid tail)
    (fuel : ℕ) (chars : List Char) (column : ℕ) (fresh oneLine : Bool) :
    quotedFrom quote (fuel + 1)
        { chars, after := { rest := List.replicate (count + 1) ' ' ++ tail, column, fresh }
          oneLine }
      = quotedFrom quote fuel
        { chars := chars ++ List.replicate (count + 1) ' '
          after := { rest := tail, column := column + (count + 1), fresh := false }
          oneLine := oneLine && true } := by
  obtain ⟨d, rest, rfl⟩ := List.exists_cons_of_ne_nil hne
  have hbreak : isBreak d = false := isBreak_of_not_isSeparator (solid_cons.mp htail)
  have hblank : quotedBlank { rest := List.replicate (count + 1) ' ' ++ d :: rest, column, fresh }
      = some (List.replicate (count + 1) ' ',
        { rest := d :: rest, column := column + (count + 1), fresh := false }, true) := by
    simp only [quotedBlank, takeWhile_blanks (count + 1) htail, Mark.pass, List.length_replicate,
      List.drop_left', hbreak, Bool.false_eq_true, if_false]
  have hspace : ¬ ' ' = quote := Ne.symm hquote
  rw [quotedFrom]
  simp only [List.replicate_succ, List.cons_append, if_neg hspace]
  rw [← List.cons_append, ← List.replicate_succ, hblank]
  rfl

theorem stands_space (hquote : quote ≠ ' ') (hne : tail ≠ []) (htail : Solid tail) :
    Stands quote [' '] tail [' '] := fun fuel chars column fresh oneLine =>
  ⟨_, _, _, quotedFrom_spaces hquote 0 hne htail fuel chars column fresh oneLine⟩

/-- A place that a space or a line feed comes next to is no mark of the document. -/
theorem atMarker_eq_false (rest : List Char) (hc : c = ' ' ∨ c = '\n') (marker : Char)
    (hmarker : marker = '-' ∨ marker = '.') (column : ℕ) (fresh : Bool) :
    Mark.atMarker [marker, marker, marker] { rest := c :: rest, column, fresh } = false := by
  have hprefix : [marker, marker, marker].isPrefixOf (c :: rest) = false := by
    rw [List.isPrefixOf]
    rcases hc with rfl | rfl <;> rcases hmarker with rfl | rfl <;> rfl
  rw [Mark.atMarker, hprefix, Bool.and_false, Bool.false_and]

/-- Line feeds and an indentation between quotes are passed. -/
theorem quotedGap_lines {indent : ℕ} (hindent : 0 < indent) (hne : tail ≠ []) (htail : Solid tail)
    (count fuel : ℕ) (hfuel : count < fuel) (breaks : List Char) (fresh : Bool) :
    quotedGap fuel breaks
        { rest := List.replicate count '\n' ++ (List.replicate indent ' ' ++ tail), column := 0, fresh }
      = some (breaks ++ List.replicate count '\n',
        { rest := tail, column := indent, fresh := false }) := by
  -- on the line feeds; after the last of them the indentation is passed as a whole
  induction count generalizing fuel breaks fresh with
  | zero =>
    obtain ⟨fuel, rfl⟩ := Nat.exists_eq_succ_of_ne_zero (Nat.ne_of_gt hfuel)
    obtain ⟨spaces, rfl⟩ := Nat.exists_eq_succ_of_ne_zero (Nat.ne_of_gt hindent)
    obtain ⟨d, rest, rfl⟩ := List.exists_cons_of_ne_nil hne
    have hbreak : isBreak d = false := isBreak_of_not_isSeparator (solid_cons.mp htail)
    have hdash := atMarker_eq_false (c := ' ') (List.replicate spaces ' ' ++ d :: rest)
      (.inl rfl) '-' (.inl rfl) 0 fresh
    have hdots := atMarker_eq_false (c := ' ') (List.replicate spaces ' ' ++ d :: rest)
      (.inl rfl) '.' (.inr rfl) 0 fresh
    have hmarker : ¬ (Mark.atMarker ['-', '-', '-'] ⟨List.replicate (spaces + 1) ' ' ++ d :: rest, 0, fresh⟩ ||
        Mark.atMarker ['.', '.', '.'] ⟨List.replicate (spaces + 1) ' ' ++ d :: rest, 0, fresh⟩) = true := by
      rw [List.replicate_succ, List.cons_append, hdash, hdots]
      exact Bool.false_ne_true
    rw [quotedGap]
    simp only [List.replicate_zero, List.nil_append, if_neg hmarker,
      takeWhile_blanks (spaces + 1) htail, Mark.pass, List.length_replicate, List.drop_left', hbreak,
      Bool.false_eq_true, if_false, List.append_nil, Nat.zero_add]
  | succ count ih =>
    obtain ⟨fuel, rfl⟩ := Nat.exists_eq_succ_of_ne_zero (Nat.ne_of_gt (Nat.zero_lt_of_lt hfuel))
    have hdash := atMarker_eq_false (c := '\n')
      (List.replicate count '\n' ++ (List.replicate indent ' ' ++ tail)) (.inr rfl) '-'
      (.inl rfl) 0 fresh
    have hdots := atMarker_eq_false (c := '\n')
      (List.replicate count '\n' ++ (List.replicate indent ' ' ++ tail)) (.inr rfl) '.'
      (.inr rfl) 0 fresh
    rw [quotedGap, List.replicate_succ, List.cons_append, hdash, hdots]
    have hrest := ih fuel (by omega) (breaks ++ ['\n']) true
    rw [List.append_assoc, List.singleton_append] at hrest
    exact hrest

/-- Line ends and an indentation: a space for one, and all but the first for more. -/
theorem stands_lines {indent : ℕ} (hindent : 0 < indent) (hquote : quote ≠ '\n') (count : ℕ)
    (hne : tail ≠ []) (htail : Solid tail) :
    Stands quote ('\n' :: (List.replicate count '\n' ++ List.replicate indent ' ')) tail
      (if count = 0 then [' '] else List.replicate count '\n') := by
  intro fuel chars column fresh oneLine
  have hlength : count < (List.replicate count '\n' ++
    (List.replicate indent ' ' ++ tail)).length + 1 := by
    rw [List.length_append, List.length_replicate]
    omega
  have hgap := quotedGap_lines hindent hne htail count _ hlength [] true
  have hblank : quotedBlank { rest := '\n' :: (List.replicate count '\n' ++
      (List.replicate indent ' ' ++ tail)), column, fresh } =
      some (foldBreaks [] ('\n' :: List.replicate count '\n'),
        { rest := tail, column := indent, fresh := false }, false) := by
    have hbreak : isBreak '\n' = true := rfl
    have hnone : ('\n' :: (List.replicate count '\n' ++
      (List.replicate indent ' ' ++ tail))).takeWhile
        (fun c => c = ' ' || c = '\t') = [] := rfl
    simp only [quotedBlank, hnone, Mark.pass, List.length_nil, List.drop_zero, hbreak,
      if_true, hgap]
    rfl
  -- the first line feed is dropped if others follow, and is read as a space if none does
  have hfold : foldBreaks [] ('\n' :: List.replicate count '\n')
      = if count = 0 then [' '] else List.replicate count '\n' := by
    have hbreak : breakText '\n' = '\n' := rfl
    cases count with
    | zero => rfl
    | succ count => simp [foldBreaks, hbreak]
  have hspace : ¬ '\n' = quote := Ne.symm hquote
  have hescape : ¬ ('\n' = '\\' && quote = '"') = true := by simp
  have hseparator : isSeparator '\n' = true := rfl
  refine ⟨indent, false, oneLine && false, ?_⟩
  rw [quotedFrom, ← hfold]
  simp only [List.cons_append, List.append_assoc, if_neg hspace, if_neg hescape,
    hseparator, if_true,
    hblank]

/-! ### Escapes -/

/-- An escape after its backslash stands for a part of the text. -/
def Escapes (escape tail part : List Char) : Prop :=
  ∀ column, ∃ after oneLine,
    escape? { rest := escape ++ tail, column, fresh := false } = some (part, after, oneLine) ∧
      after.rest = tail

theorem Escapes.stands {escape : List Char} (h : Escapes escape tail part) :
    Stands '"' ('\\' :: escape) tail part := by
  intro fuel chars column fresh oneLine
  obtain ⟨after, oneLine', hescape, hrest⟩ := h (column + 1)
  refine ⟨after.column, after.fresh, oneLine && oneLine', ?_⟩
  have hpass : Mark.pass 1 { rest := '\\' :: (escape ++ tail), column, fresh }
      = { rest := escape ++ tail, column := column + 1, fresh := false } := rfl
  have hquote : ¬ '\\' = '"' := by decide
  rw [quotedFrom]
  simp only [List.cons_append, if_neg hquote, decide_true, Bool.and_self, if_true, hpass, hescape]
  rw [← hrest]

/-- The letters that are written are read back. -/
theorem find?_writtenEscapes {entry : Char × Char} (h : entry ∈ writtenEscapes) :
    simpleEscapes.find? (fun other => other.1 = entry.2) = some (entry.2, entry.1) := by
  have hall : ∀ entry ∈ writtenEscapes,
      simpleEscapes.find? (fun other => other.1 = entry.2) = some (entry.2, entry.1) := by decide
  exact hall entry h

theorem escapes_letter {letter : Char} (h : simpleEscapes.find? (fun other => other.1 = letter)
    = some (letter, c)) (tail : List Char) : Escapes [letter] tail [c] := by
  intro column
  refine ⟨{ rest := tail, column := column + 1, fresh := false }, true, ?_, rfl⟩
  simp only [escape?, List.singleton_append, h]
  rfl

/-- A line end after a backslash is passed with the indentation after it. -/
theorem escapes_cut {indent : ℕ} (hindent : 0 < indent) (hne : tail ≠ []) (htail : Solid tail) :
    Escapes ('\n' :: List.replicate indent ' ') tail [] := by
  intro column
  have hgap := quotedGap_lines hindent hne htail 0 ((List.replicate indent ' ' ++ tail).length + 1)
    (Nat.zero_lt_succ _) [] true
  refine ⟨{ rest := tail, column := indent, fresh := false }, false, ?_, rfl⟩
  have hnone : simpleEscapes.find? (fun other => other.1 = '\n') = none := by decide
  have hcode : codeDigits? '\n' = none := by decide
  have hbreak : isBreak '\n' = true := rfl
  simp only [escape?, List.cons_append, hnone, hcode, hbreak, if_true]
  rw [List.replicate_zero, List.nil_append] at hgap
  rw [hgap]
  rfl

/-- The capital digits of a number are read back. -/
theorem mapM_hexValue? {digits : List Char} (h : ∀ d ∈ digits, SmallDigit d) :
    (digits.map Char.toUpper).mapM hexValue? = some (digits.map digitValue) := by
  induction digits with
  | nil => rfl
  | cons d rest ih =>
    have hall : (hexAlphabet.all fun d => hexValue? d.toUpper == some (digitValue d)) = true := by
      decide
    have hd : hexValue? d.toUpper = some (digitValue d) :=
      beq_iff_eq.mp (List.all_eq_true.mp hall d (mem_hexAlphabet (h d List.mem_cons_self).1))
    rw [List.map_cons, List.mapM_cons, hd, ih fun d hd => h d (List.mem_cons_of_mem _ hd)]
    rfl

theorem foldl_digitValue (digits : List Char) :
    (digits.map digitValue).foldl (fun code d => 16 * code + d) 0 = hexNumber digits := by
  induction digits using List.reverseRecOn with
  | nil => rfl
  | append_singleton digits d ih =>
    rw [List.map_append, List.foldl_append, ih, hexNumber_append, hexNumber_singleton,
      List.length_singleton, pow_one, Nat.mul_comm]
    rfl

theorem isPlainAscii_capitalCode {width : ℕ} (hwidth : 0 < width) (hc : c.toNat < 16 ^ width) :
    ∀ d ∈ capitalCode width c, isPlainAscii d = true := by
  intro d hd
  obtain ⟨digit, hdigit, rfl⟩ := List.mem_map.mp hd
  have hall : (hexAlphabet.all fun d => isPlainAscii d.toUpper) = true := by decide
  exact List.all_eq_true.mp hall digit
    (mem_hexAlphabet ((writtenOn_hexPadded hwidth hc).small digit hdigit).1)

/-- The escape of a character by its code point. -/
theorem escapes_code {letter : Char} {width : ℕ} (hletter : codeDigits? letter = some width)
    (hsimple : simpleEscapes.find? (fun other => other.1 = letter) = none) (hwidth : 0 < width)
    (hc : c.toNat < 16 ^ width) (tail : List Char) :
    Escapes (letter :: capitalCode width c) tail [c] := by
  intro column
  have hwritten := writtenOn_hexPadded hwidth hc
  have hlength : (capitalCode width c).length = width := by
    rw [capitalCode, List.length_map, hwritten.length]
  have htake : (capitalCode width c ++ tail).take width = capitalCode width c :=
    List.take_left' hlength
  have hcode : codePoint? (capitalCode width c) = some c := by
    rw [codePoint?, capitalCode, mapM_hexValue? hwritten.small, Option.map_some, foldl_digitValue,
      hwritten.number, Char.ofNat_toNat]
  refine ⟨{ rest := tail, column := column + (width + 1), fresh := false }, true, ?_, rfl⟩
  simp only [escape?, List.cons_append, hsimple, hletter, htake, hlength, if_true, hcode,
    Option.map_some, Mark.pass, List.drop_succ_cons, List.drop_left' hlength]

/-- What is written for a character by an escape is read back. -/
theorem escapes_escaped {escape : List Char} (h : escaped? c = some escape) :
    ∃ rest, escape = '\\' :: rest ∧ (∀ tail, Escapes rest tail [c]) ∧
      ∀ d ∈ escape, isPlainAscii d = true := by
  -- the three lengths of a code differ only in their letter and in how many digits follow it
  have hcode : ∀ {letter : Char} {width : ℕ}, codeDigits? letter = some width →
      simpleEscapes.find? (fun other => other.1 = letter) = none → isPlainAscii letter = true →
      0 < width → c.toNat < 16 ^ width →
      ∃ rest, '\\' :: letter :: capitalCode width c = '\\' :: rest ∧
        (∀ tail, Escapes rest tail [c]) ∧
          ∀ d ∈ '\\' :: letter :: capitalCode width c, isPlainAscii d = true := by
    intro letter width hletter hsimple hplain hwidth hc
    refine ⟨_, rfl, escapes_code hletter hsimple hwidth hc, ?_⟩
    simp only [List.forall_mem_cons]
    exact ⟨by decide, hplain, isPlainAscii_capitalCode hwidth hc⟩
  rw [escaped?] at h
  split at h
  case h_1 d letter hfind =>
    obtain rfl := Option.some.inj h
    have hmem := List.mem_of_find?_eq_some hfind
    obtain rfl : d = c := by simpa using List.find?_some hfind
    have hplain : ∀ entry ∈ writtenEscapes, isPlainAscii entry.2 = true := by decide
    refine ⟨[letter], rfl, escapes_letter (find?_writtenEscapes hmem), ?_⟩
    simp only [List.forall_mem_cons]
    exact ⟨by decide, hplain _ hmem, nofun⟩
  case h_2 =>
    split at h
    · cases h
    split at h
    case isTrue hlt =>
      obtain rfl := Option.some.inj h
      exact hcode rfl (by decide) (by decide) (by decide) hlt
    split at h
    case isTrue hlt =>
      obtain rfl := Option.some.inj h
      exact hcode rfl (by decide) (by decide) (by decide) hlt
    case isFalse =>
      obtain rfl := Option.some.inj h
      exact hcode rfl (by decide) (by decide) (by decide) c.val.toNat_lt

/-! ### Spelling -/

/-- A body between quotes spells a text: it is read as the text, it is printed as it is, and it does
not begin with a separator unless the text does. -/
structure Spells (quote : Char) (body text : List Char) : Prop where
  reads : ReadsAs quote body text
  printed : ∀ c ∈ body, Printed c
  solid : Solid text → Solid body

namespace Spells

theorem nil (quote : Char) : Spells quote [] [] := ⟨readsAs_nil quote, nofun, id⟩

/-- What follows a body is not empty, for there is the closing quote. -/
theorem ne_nil (more : List Char) : body ++ quote :: more ≠ [] :=
  List.append_ne_nil_of_right_ne_nil _ (List.cons_ne_nil _ _)

theorem solid_append (hquote : isSeparator quote = false) (h : Solid body) (more : List Char) :
    Solid (body ++ quote :: more) := by
  cases body with
  | nil => exact solid_cons.mpr hquote
  | cons c rest => exact solid_cons.mpr (solid_cons.mp h)

theorem character (h : Spells quote body text) (hquote : c ≠ quote)
    (hescape : quote = '"' → c ≠ '\\') (hinked : Inked c) : Spells quote (c :: body) (c :: text) := by
  have hc : isSeparator c = false := hinked.not_isSeparator
  refine ⟨?_, List.forall_mem_cons.mpr ⟨.inr hinked.1, h.printed⟩, fun _ => solid_cons.mpr hc⟩
  exact Stands.readsAs (fun more => stands_character hquote hescape hc _)
    (List.cons_ne_nil _ _) h.reads

theorem doubled (h : Spells '\'' body text) :
    Spells '\'' ('\'' :: '\'' :: body) ('\'' :: text) := by
  have hplain : Printed '\'' := .inr (by decide)
  refine ⟨?_, List.forall_mem_cons.mpr ⟨hplain, List.forall_mem_cons.mpr ⟨hplain, h.printed⟩⟩,
    fun _ => solid_cons.mpr (by decide)⟩
  exact Stands.readsAs (fun more => stands_doubled _) (List.cons_ne_nil _ _) h.reads

/-- A space before a body that begins with no separator but spaces. -/
theorem space (h : Spells quote body text) (hquote : isSeparator quote = false)
    (hbody : Settled body) : Spells quote (' ' :: body) (' ' :: text) := by
  have hne : quote ≠ ' ' := by
    rintro rfl
    cases hquote
  refine ⟨?_, List.forall_mem_cons.mpr ⟨.inr (by decide), h.printed⟩,
    fun hsolid => absurd (solid_cons.mp hsolid) (by decide)⟩
  obtain ⟨count, core, rfl, hcore⟩ := hbody.exists_spaces
  cases count with
  | zero =>
    exact Stands.readsAs
      (fun more => stands_space hne (ne_nil more) (solid_append hquote hcore more))
      (List.cons_ne_nil _ _) h.reads
  | succ count =>
    -- all the spaces are read at once, with this one or without it
    intro more hmore fuel hfuel chars column fresh oneLine
    obtain ⟨fuel, rfl⟩ := Nat.exists_eq_succ_of_ne_zero (Nat.ne_of_gt (Nat.zero_lt_of_lt hfuel))
    obtain ⟨column', oneLine', hrest⟩ := h.reads more hmore (fuel + 1)
      (Nat.lt_of_succ_lt hfuel) (chars ++ [' ']) (column + 1) fresh oneLine
    refine ⟨column', oneLine', ?_⟩
    have hsolid := solid_append hquote hcore more
    have hwith := quotedFrom_spaces hne (count + 1)
      (ne_nil more) hsolid fuel chars column fresh oneLine
    have hwithout := quotedFrom_spaces hne count (ne_nil more) hsolid fuel (chars ++ [' '])
      (column + 1) fresh oneLine
    have hcolumn : column + 1 + (count + 1) = column + (count + 1 + 1) := by omega
    rw [List.append_assoc, hwithout, hcolumn, List.append_assoc, List.singleton_append,
      ← List.replicate_succ, ← hwith] at hrest
    rw [List.replicate_succ, List.cons_append, List.append_assoc] at hrest
    rw [List.cons_append, List.append_assoc, hrest]
    rfl

/-- Line ends and an indentation before a body that does not begin with a separator. -/
theorem lines (h : Spells quote body text) (hquote : isSeparator quote = false) {indent : ℕ}
    (hindent : 0 < indent) (count : ℕ) (hbody : Solid body) :
    Spells quote ('\n' :: (List.replicate count '\n' ++ (List.replicate indent ' ' ++ body)))
      ((if count = 0 then [' '] else List.replicate count '\n') ++ text) := by
  have hne : quote ≠ '\n' := by
    rintro rfl
    cases hquote
  refine ⟨?_, ?_, ?_⟩
  · have hreads := Stands.readsAs (fun more => stands_lines hindent hne count (ne_nil more)
      (solid_append hquote hbody more)) (List.cons_ne_nil _ _) h.reads
    rwa [List.cons_append, List.append_assoc] at hreads
  · simp only [List.forall_mem_cons, List.forall_mem_append]
    exact ⟨.inl rfl, fun c hc => .inl (List.eq_of_mem_replicate hc),
      fun c hc => .inr (by rw [List.eq_of_mem_replicate hc]; decide), h.printed⟩
  · intro hsolid
    cases count with
    | zero => exact absurd (solid_cons.mp hsolid) (by decide)
    | succ count => exact absurd (solid_cons.mp hsolid) (by decide)

/-- An escape. -/
theorem escape (h : Spells '"' body text) (escape : List Char)
    (hescape : ∀ tail, Escapes escape tail part)
    (hplain : ∀ c ∈ escape, Printed c) : Spells '"' ('\\' :: (escape ++ body)) (part ++ text) where
  reads := Stands.readsAs (fun more => (hescape _).stands) (List.cons_ne_nil _ _) h.reads
  printed := by
    simp only [List.forall_mem_cons, List.forall_mem_append]
    exact ⟨.inr (by decide), hplain, h.printed⟩
  solid _ := solid_cons.mpr (by decide)

/-- A line that is cut before a body that does not begin with a separator. -/
theorem cut (h : Spells '"' body text) {indent : ℕ} (hindent : 0 < indent) (hbody : Solid body) :
    Spells '"' ('\\' :: '\n' :: (List.replicate indent ' ' ++ body)) text where
  reads := by
    have hstands : ∀ more, Stands '"' ('\\' :: '\n' :: List.replicate indent ' ')
        (body ++ '"' :: more) [] := fun more =>
      (escapes_cut hindent (ne_nil more) (solid_append (by decide) hbody more)).stands
    exact Stands.readsAs hstands (List.cons_ne_nil _ _) h.reads
  printed := by
    simp only [List.forall_mem_cons, List.forall_mem_append]
    exact ⟨.inr (by decide), .inl rfl,
      fun c hc => .inr (by rw [List.eq_of_mem_replicate hc]; decide), h.printed⟩
  solid _ := solid_cons.mpr (by decide)

end Spells

/-! ### Single quotes -/

/-- A character between single quotes: a quote is doubled. -/
def double (c : Char) : List Char := if c = '\'' then ['\'', '\''] else [c]

namespace Spells

/-- A run of printed characters that are no spaces. -/
theorem inked (h : Spells '\'' body text) {run : List Char} (hrun : ∀ c ∈ run, Inked c) :
    Spells '\'' (run.flatMap double ++ body) (run ++ text) := by
  induction run with
  | nil => exact h
  | cons c rest ih =>
    have hrest := ih fun d hd => hrun d (List.mem_cons_of_mem _ hd)
    rw [List.flatMap_cons, double]
    split
    case isTrue heq =>
      subst heq
      exact hrest.doubled
    case isFalse hquote => exact hrest.character hquote nofun (hrun c List.mem_cons_self)

/-- A run of spaces before a body that does not begin with a separator. -/
theorem spaces (h : Spells quote body text) (hquote : isSeparator quote = false)
    (hbody : Solid body)
    (count : ℕ) :
    Spells quote (List.replicate count ' ' ++ body) (List.replicate count ' ' ++ text) ∧
      Settled (List.replicate count ' ' ++ body) := by
  induction count with
  | zero => exact ⟨h, hbody.settled⟩
  | succ count ih => exact ⟨ih.1.space hquote ih.2, settled_space.mpr ih.2⟩

end Spells

/-- A run is written as it is, or a single space on a full line becomes a line end. -/
theorem writeSingle_cons (indent : ℕ) (written : Written) (first : Bool) (run : List Char)
    (hline : run.head?.any endsTextLine = false) (more : List (List Char)) :
    writeSingle indent written first (run :: more)
        = writeSingle indent (written.put (run.flatMap double)) false more ∨
      run = [' '] ∧ writeSingle indent written first (run :: more)
        = writeSingle indent (written.newLine indent) false more := by
  rw [writeSingle]
  split
  case isTrue hfold =>
    simp only [Bool.and_eq_true, decide_eq_true_eq] at hfold
    exact .inr ⟨hfold.1.1.1, rfl⟩
  case isFalse =>
    rw [hline]
    exact .inl rfl

/-- Line ends are written with one more, and the next line is indented. -/
theorem writeSingle_lines (indent : ℕ) (written : Written) (first : Bool) (count : ℕ)
    (more : List (List Char)) :
    ∃ next : Written, writeSingle indent written first (List.replicate (count + 1) '\n' :: more)
        = writeSingle indent next false more ∧
      next.reversed = List.replicate indent ' ' ++
        (List.replicate (count + 2) '\n' ++ written.reversed) := by
  have hfold : ¬ (List.replicate (count + 1) '\n' = [' '] && lineWidth < written.column && !first
      && !more.isEmpty) = true := by
    simp [List.replicate_succ]
  have hline : (List.replicate (count + 1) '\n').head?.any endsTextLine = true := rfl
  have hlines : (List.replicate (count + 1) '\n').length
      + (if (List.replicate (count + 1) '\n').head? = some '\n' then 1 else 0) = count + 2 := by
    rw [List.length_replicate, List.replicate_succ, List.head?_cons, if_pos rfl]
  rw [writeSingle, if_neg hfold, if_pos hline, hlines]
  exact ⟨_, rfl, rfl⟩

/-- **What is written between single quotes spells the text.** -/
theorem writeSingle_spells {indent : ℕ} (hindent : 0 < indent) {runs : List (List Char)}
    (h : Alternating runs) (written : Written) (first : Bool) :
    ∃ body, (writeSingle indent written first runs).reversed = body.reverse ++ written.reversed ∧
      Spells '\'' body runs.flatten := by
  have hquote : isSeparator '\'' = false := by decide
  induction h generalizing written first with
  | nil => exact ⟨[], rfl, .nil _⟩
  | @inked run more hrun hmore h ih =>
    obtain ⟨c, rest, rfl⟩ := List.exists_cons_of_ne_nil hrun.1
    have hc := hrun.2 c List.mem_cons_self
    rcases writeSingle_cons indent written first (c :: rest) hc.not_endsTextLine more with heq |
      ⟨hspace, -⟩
    · obtain ⟨body, hbody, hspells⟩ := ih (written.put ((c :: rest).flatMap double)) false
      refine ⟨(c :: rest).flatMap double ++ body, ?_, hspells.inked hrun.2⟩
      rw [heq, hbody, List.reverse_append, List.append_assoc]
      rfl
    · exact absurd (List.cons.inj hspace).1 hc.2
  | @white run more hrun hmore h ih =>
    have hsolid : Solid more.flatten := (Alternating.white hrun hmore h).solid hrun
    obtain ⟨c, count, hc, rfl⟩ := hrun
    rcases hc with rfl | rfl
    · rcases writeSingle_cons indent written first (List.replicate (count + 1) ' ') rfl more with
        heq | ⟨hspace, heq⟩
      · obtain ⟨body, hbody, hspells⟩ :=
          ih (written.put ((List.replicate (count + 1) ' ').flatMap double)) false
        have hdouble : (List.replicate (count + 1) ' ').flatMap double
            = List.replicate (count + 1) ' ' := by
          have hsingle : ∀ c ∈ List.replicate (count + 1) ' ', double c = [c] := fun c hc => by
            rw [List.eq_of_mem_replicate hc]
            rfl
          rw [List.flatMap_congr hsingle, List.flatMap_singleton']
        refine ⟨List.replicate (count + 1) ' ' ++ body, ?_,
          (hspells.spaces hquote (hspells.solid hsolid) (count + 1)).1⟩
        rw [heq, hbody, hdouble, List.reverse_append, List.append_assoc]
        rfl
      · -- the space becomes a line end
        obtain ⟨body, hbody, hspells⟩ := ih (written.newLine indent) false
        have hlines := hspells.lines hquote hindent 0 (hspells.solid hsolid)
        rw [hspace]
        refine ⟨_, ?_, hlines⟩
        rw [← hspace, heq, hbody]
        simp [Written.newLine]
    · obtain ⟨next, heq, hnext⟩ := writeSingle_lines indent written first count more
      obtain ⟨body, hbody, hspells⟩ := ih next false
      refine ⟨_, ?_, hspells.lines hquote hindent (count + 1) (hspells.solid hsolid)⟩
      rw [heq, hbody, hnext, List.replicate_succ' (n := count + 1)]
      simp only [List.reverse_cons, List.reverse_append, List.reverse_replicate, List.append_assoc]

/-! ### Double quotes -/

/-- What is written where a line is cut before a character. -/
def cutBefore (indent : ℕ) (next : Char) : List Char :=
  '\\' :: '\n' :: (List.replicate indent ' ' ++ if next = ' ' then ['\\'] else [])

theorem cutLine_reversed (indent : ℕ) (next : Char) (written : Written) :
    (written.cutLine indent (some next)).reversed
      = (cutBefore indent next).reverse ++ written.reversed := by
  by_cases hnext : next = ' '
  · simp [Written.cutLine, Written.put, Written.newLine, cutBefore, hnext]
  · simp [Written.cutLine, Written.put, Written.newLine, cutBefore, hnext]

theorem cutLine_column_le (indent : ℕ) (next : Option Char) (written : Written) :
    (written.cutLine indent next).column ≤ indent + 1 := by
  rw [Written.cutLine]
  split
  · exact Nat.le_refl _
  · exact Nat.le_succ _

/-- A character that is written as it is between double quotes. -/
theorem eq_of_escaped?_eq_none (h : escaped? c = none) :
    isPlainAscii c = true ∧ c ≠ '"' ∧ c ≠ '\\' := by
  rw [escaped?] at h
  split at h
  · cases h
  case h_2 hfind =>
    have hno : ∀ letter, (c, letter) ∉ writtenEscapes := fun letter hmem => by
      have := List.find?_eq_none.mp hfind _ hmem
      simp at this
    split at h
    case isTrue hplain =>
      refine ⟨hplain, ?_, ?_⟩
      · rintro rfl
        exact hno '"' (by decide)
      · rintro rfl
        exact hno '\\' (by decide)
    case isFalse =>
      split at h
      · cases h
      · split at h <;> cases h

/-- What is written for the rest of a text: it spells the text, and it begins like it. -/
structure Continues (cs body : List Char) : Prop where
  spells : Spells '"' body cs
  settled : Settled body
  solid : cs.head? ≠ some ' ' → Solid body

namespace Continues

theorem nil : Continues [] [] := ⟨.nil _, solid_nil, fun _ => solid_nil⟩

theorem escaped (h : Continues text body) {escape : List Char}
    (hescape : escaped? c = some escape) :
    Continues (c :: text) (escape ++ body) := by
  obtain ⟨rest, rfl, hescapes, hplain⟩ := escapes_escaped hescape
  have hsolid : Solid ('\\' :: (rest ++ body)) := solid_cons.mpr (by decide)
  refine ⟨h.spells.escape _ hescapes fun d hd => .inr ?_, hsolid.settled, fun _ => hsolid⟩
  exact hplain d (List.mem_cons_of_mem _ hd)

/-- A character that is written as it is. -/
theorem plain (h : Continues text body) (hc : escaped? c = none) :
    Continues (c :: text) (c :: body) := by
  obtain ⟨hplain, hquote, hescape⟩ := eq_of_escaped?_eq_none hc
  by_cases hspace : c = ' '
  · subst hspace
    exact ⟨h.spells.space (by decide) h.settled, settled_space.mpr h.settled,
      fun hne => absurd rfl hne⟩
  · have hinked : Inked c := ⟨hplain, hspace⟩
    have hsolid : Solid (c :: body) := solid_cons.mpr hinked.not_isSeparator
    exact ⟨h.spells.character hquote (fun _ => hescape) hinked, hsolid.settled, fun _ => hsolid⟩

/-- A line is cut before a character; a space is marked. -/
theorem cut (h : Continues (c :: text) body) {indent : ℕ} (hindent : 0 < indent)
    (hspace : c = ' ' → ∃ tail, body = ' ' :: tail ∧ Spells '"' tail text) :
    Continues (c :: text) (cutBefore indent c ++ body) := by
  have hsolid : Solid (cutBefore indent c ++ body) := solid_cons.mpr (by decide)
  refine ⟨?_, hsolid.settled, fun _ => hsolid⟩
  by_cases hc : c = ' '
  · obtain ⟨tail, rfl, htail⟩ := hspace hc
    subst hc
    have hmarked : Spells '"' ('\\' :: ' ' :: tail) (' ' :: text) :=
      htail.escape [' '] (escapes_letter (by decide))
        (List.forall_mem_singleton.mpr (.inr (by decide)))
    have hcut := hmarked.cut hindent (solid_cons.mpr (by decide))
    simpa [cutBefore] using hcut
  · have hcut := h.spells.cut hindent (h.solid (by simpa using hc))
    simpa [cutBefore, hc] using hcut

end Continues

/-- **What is written between double quotes spells the text.**  After what is held back the rest of
the body comes; a space on a line that is not full is written as it is. -/
theorem writeDouble_spells {indent : ℕ} (hindent : 0 < indent) (hwidth : indent < lineWidth)
    (cs : List Char) (written : Written) (held : List Char) (started : Bool) :
    ∃ body, (writeDouble indent written held started cs).reversed
        = body.reverse ++ (held ++ written.reversed) ∧ Continues cs body ∧
      ∀ rest, cs = ' ' :: rest → written.column + held.length ≤ lineWidth →
        ∃ tail, body = ' ' :: tail ∧ Spells '"' tail rest := by
  induction cs generalizing written held started with
  | nil =>
    refine ⟨[], ?_, .nil, nofun⟩
    rw [writeDouble, Written.put, List.reverse_reverse]
    rfl
  | cons c rest ih =>
    cases hc : escaped? c with
    | some escape =>
      have hnow : ((written.put held.reverse).put escape).reversed
          = escape.reverse ++ (held ++ written.reversed) := by
        rw [Written.put, Written.put, List.reverse_reverse]
      have hspace : c ≠ ' ' := by
        rintro rfl
        cases hc
      rw [writeDouble, hc]
      dsimp only
      split
      case isTrue hcut =>
        -- something is left, and the next line is not full
        have hrest : rest ≠ [] := by
          rintro rfl
          simp at hcut
        obtain ⟨d, tail, rfl⟩ := List.exists_cons_of_ne_nil hrest
        obtain ⟨body, hbody, hcontinues, hnext⟩ :=
          ih (((written.put held.reverse).put escape).cutLine indent (some d)) [] true
        have hcolumn := cutLine_column_le indent (some d) ((written.put held.reverse).put escape)
        have hspaces : d = ' ' → ∃ rest, body = ' ' :: rest ∧ Spells '"' rest tail := fun heq =>
          hnext tail (by rw [heq]) (by rw [List.length_nil]; omega)
        refine ⟨escape ++ (cutBefore indent d ++ body), ?_,
          (hcontinues.cut hindent hspaces).escaped hc,
          fun tail heq => absurd (List.cons.inj heq).1 hspace⟩
        rw [List.head?_cons, hbody, cutLine_reversed, hnow]
        simp only [List.reverse_append, List.append_assoc, List.nil_append]
      case isFalse =>
        obtain ⟨body, hbody, hcontinues, -⟩ := ih ((written.put held.reverse).put escape) [] true
        refine ⟨escape ++ body, ?_, hcontinues.escaped hc, fun tail heq =>
          absurd (List.cons.inj heq).1 hspace⟩
        rw [hbody, hnow, List.reverse_append, List.append_assoc, List.nil_append]
    | none =>
      rw [writeDouble, hc]
      dsimp only
      split
      case isTrue hcut =>
        obtain ⟨body, hbody, hcontinues, -⟩ :=
          ih ((written.put held.reverse).cutLine indent (some c)) [c] true
        have hfull : ¬ written.column + held.length ≤ lineWidth := by
          simp only [Bool.and_eq_true, decide_eq_true_eq] at hcut
          exact Nat.not_le.mpr hcut.2
        have hspaces : c = ' ' → ∃ tail, c :: body = ' ' :: tail ∧ Spells '"' tail rest :=
          fun heq =>
          ⟨body, by rw [heq], hcontinues.spells⟩
        refine ⟨cutBefore indent c ++ c :: body, ?_, (hcontinues.plain hc).cut hindent hspaces,
          fun tail heq hle => absurd hle hfull⟩
        rw [hbody, cutLine_reversed, Written.put, List.reverse_reverse]
        simp only [List.reverse_append, List.reverse_cons, List.append_assoc]
      case isFalse =>
        obtain ⟨body, hbody, hcontinues, -⟩ := ih written (c :: held) true
        refine ⟨c :: body, ?_, hcontinues.plain hc, ?_⟩
        · rw [hbody, List.reverse_cons, List.append_assoc]
          rfl
        · rintro tail heq -
          obtain ⟨rfl, rfl⟩ := List.cons.inj heq
          exact ⟨body, rfl, hcontinues.spells⟩

end TraceDebugger.Yaml
