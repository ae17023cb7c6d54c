/-
Entries of a mapping in block form.

A key is a name with a colon.  At the start of a line it begins a mapping, and the entries that come
on the same column belong to it.

* `readKey_name` — a name is read as a key;
* `blockValue_name` — a name at the start of a line begins a mapping;
* `blockEntries_last`, `blockEntries_next` — an entry is read, and then the others;
* `outline?_of_name` — a document that begins with a key is a mapping.
-/
import TraceDebugger.Proofs.Yaml.Scalars

namespace TraceDebugger.Yaml

variable {name rest more : List Char} {entries : List (Leaf × Outline)}

/-- A key is a name that stands for a text. -/
structure IsKey (name : List Char) : Prop extends IsName name where
  isText : ofPlain (String.ofList name) = .ok (.str (String.ofList name))

namespace IsKey

theorem exists_cons (h : IsKey name) : ∃ c tail, name = c :: tail ∧ IsNameChar c := by
  obtain ⟨c, tail, rfl⟩ := List.exists_cons_of_ne_nil h.ne_nil
  exact ⟨c, tail, rfl, h.chars c List.mem_cons_self⟩

/-- A key at a place that is no end of the document, no item and no tag. -/
theorem ne_of_head {c d : Char} (hc : IsNameChar c) (hd : ¬ IsNameChar d) : c ≠ d := by
  rintro rfl
  exact hd hc

end IsKey

/-- A name is read as a key, up to its colon. -/
theorem plainText_name (h : IsName name) (hends : endsHere rest = true) (least : Int) (column : ℕ)
    (fresh : Bool) :
    plainText false least { rest := name ++ ':' :: rest, column, fresh }
      = { chars := name
          after := { rest := ':' :: rest, column := column + name.length, fresh := false }
          oneLine := true } := by
  have hstop : endsPlain false ':' rest = true := by simp [endsPlain, hends]
  have hcolon : Inked ':' := ⟨by decide, by decide⟩
  have hgap := plainGap_spaces hcolon 0 rest.length (column + name.length) false rest
  rw [List.replicate_zero, List.nil_append] at hgap
  rw [plainText, plainFrom_succ h.isWord hstop _ column fresh true hgap, if_pos]
  · rfl
  · simp

/-- The key of a name as it is written. -/
def nameLeaf (name : List Char) : Leaf := ⟨String.ofList name, true⟩

theorem IsKey.value_nameLeaf (h : IsKey name) :
    (nameLeaf name).value = .ok (.str (String.ofList name)) := h.isText

theorem readKey_name (h : IsKey name) (hends : endsHere rest = true) (column : ℕ) (fresh : Bool) :
    readKey { rest := name ++ ':' :: rest, column, fresh }
      = some (nameLeaf name,
        { rest, column := column + name.length + 1, fresh := false }) := by
  obtain ⟨c, tail, hname, hc⟩ := h.exists_cons
  have htag : readTag { rest := name ++ ':' :: rest, column, fresh }
      = some (false, { rest := name ++ ':' :: rest, column, fresh }) := by
    rw [readTag, if_neg]
    rw [hname, List.cons_append, List.head?_cons]
    exact fun heq => IsKey.ne_of_head hc (by decide) (Option.some.inj heq)
  have hspaces : Mark.passSpaces { rest := name ++ ':' :: rest, column, fresh }
      = { rest := name ++ ':' :: rest, column, fresh } := by
    rw [hname, List.cons_append, passSpaces_inked hc.inked.2]
  -- the reader takes the name for a plain text, and stops at the colon
  have hword : readLeaf false false (column + 1) { rest := name ++ ':' :: rest, column, fresh }
      = some { leaf := nameLeaf name
               after := { rest := ':' :: rest, column := column + name.length, fresh := false }
               oneLine := true } := by
    obtain ⟨hsingle, hdouble, hplainly⟩ := (hname ▸ h.beginsPlainly).reads hc.inked
      (tail ++ ':' :: rest) fun hgoes => by
        cases tail with
        | nil => cases hgoes
        | cons d tail => exact hgoes
    rw [readLeaf]
    split
    case h_1 heq =>
      rw [hname] at heq
      exact absurd (Option.some.inj heq) hsingle
    case h_2 heq =>
      rw [hname] at heq
      exact absurd (Option.some.inj heq) hdouble
    case h_3 =>
      rw [if_pos (by rw [hname]; exact hplainly), plainText_name h.toIsName hends]
      rfl
  have hcolon : Mark.atColon { rest := ':' :: rest, column := column + name.length, fresh := false }
      = true := hends
  rw [readKey, htag, Option.bind_eq_bind, Option.bind_some]
  simp only [hspaces, hword, Option.bind_eq_bind, Option.bind_some,
    passSpaces_inked (by decide : ':' ≠ ' '), hcolon, Bool.and_self, if_true]
  rfl

/-! ### Mappings -/

/-- A document does not end at a key, and no item of a sequence stands there. -/
theorem IsKey.not_end (h : IsKey name) (column : ℕ) (fresh : Bool) (rest : List Char) :
    Mark.atDocumentEnd { rest := name ++ rest, column, fresh } = false ∧
      Mark.atItem { rest := name ++ rest, column, fresh } = false := by
  obtain ⟨c, tail, rfl, hc⟩ := h.exists_cons
  have hdash : c ≠ '-' := IsKey.ne_of_head hc (by decide)
  have hdot : c ≠ '.' := IsKey.ne_of_head hc (by decide)
  refine ⟨?_, ?_⟩
  · simp [Mark.atDocumentEnd, Mark.atEnd, Mark.atMarker, hdash.symm, hdot.symm]
  · rw [Mark.atItem]
    split
    case h_1 heq => exact absurd (List.cons.inj heq).1 hdash
    case h_2 => rfl

/-- A key at the start of a line begins a mapping. -/
theorem blockValue_name (h : IsKey name) (hends : endsHere rest = true) {mark : Mark} {column : ℕ}
    (hstart : mark.next = { rest := name ++ ':' :: rest, column, fresh := true }) {parent : Int}
    (hparent : parent < column) (indentless : Bool) (fuel : ℕ) :
    blockValue (fuel + 1) parent indentless mark
      = blockEntries fuel column [] { rest := name ++ ':' :: rest, column, fresh := true } := by
  obtain ⟨hend, hitem⟩ := h.not_end column true (':' :: rest)
  have hkey := readKey_name h hends column true
  rw [blockValue]
  simp only [hstart, hend, hitem, hparent, hkey, Bool.and_false, Bool.false_eq_true, if_false,
    decide_true, Bool.not_true, if_true]
  obtain ⟨c, tail, rfl, hc⟩ := h.exists_cons
  rw [List.cons_append, List.head?_cons]
  split
  case h_1 heq => exact absurd (Option.some.inj heq) (IsKey.ne_of_head hc (by decide))
  case h_2 heq => exact absurd (Option.some.inj heq) (IsKey.ne_of_head hc (by decide))
  case h_3 => rfl

section Entry

variable {value : Outline} {after : Mark} {column fuel : ℕ} (h : IsKey name)
  (hends : endsHere rest = true)
  (hvalue : blockValue fuel column true
    { rest, column := column + name.length + 1, fresh := false } = some (value, after))

include h hends hvalue

/-- The last entry of a document ends its mapping. -/
theorem blockEntries_last (hafter : after.next = lineStart []) (fresh : Bool) :
    blockEntries (fuel + 1) column entries { rest := name ++ ':' :: rest, column, fresh }
      = some (.map (entries ++ [(nameLeaf name, value)]), lineStart []) := by
  rw [blockEntries, readKey_name h hends]
  simp only [Option.bind_eq_bind, Option.bind_some, hvalue, hafter]
  rfl

/-- After an entry the next one is read, if it stands on the same column. -/
theorem blockEntries_next {next following : List Char} (hnext : IsKey next)
    (hafter : after.next = { rest := next ++ following, column, fresh := true }) (fresh : Bool) :
    blockEntries (fuel + 1) column entries { rest := name ++ ':' :: rest, column, fresh }
      = blockEntries fuel column (entries ++ [(nameLeaf name, value)])
          { rest := next ++ following, column, fresh := true } := by
  obtain ⟨hend, -⟩ := hnext.not_end column true following
  rw [blockEntries, readKey_name h hends]
  simp [hvalue, hafter, hend]

end Entry

/-! ### Documents -/

theorem plainBreaks_of_printed {cs : List Char} (h : ∀ c ∈ cs, Printed c) : plainBreaks cs = cs := by
  induction cs with
  | nil => rfl
  | cons c rest ih =>
    have hreturn : c ≠ '\r' := by
      rintro rfl
      exact absurd (h _ List.mem_cons_self) (by decide)
    rw [plainBreaks, ih fun d hd => h d (List.mem_cons_of_mem _ hd)]
    · rintro more rfl
      exact absurd rfl hreturn
    · rintro rfl
      exact absurd rfl hreturn

theorem isAllowed_of_printed {c : Char} (h : Printed c) : isAllowed c = true := by
  rcases h with rfl | hplain
  · rfl
  · have hascii : (' ' ≤ c && c ≤ '~') = true := hplain
    rw [isAllowed, hascii]
    simp

/-- A document that begins with a key is the mapping that begins with it. -/
theorem outline?_of_name {text : String} (hprinted : ∀ c ∈ text.toList, Printed c) (h : IsKey name)
    (htext : text.toList = name ++ ':' :: rest) (hends : endsHere rest = true) {document : Outline}
    (hread : blockEntries (2 * text.toList.length + 3) 0 [] { rest := name ++ ':' :: rest }
      = some (document, lineStart [])) :
    outline? text = some document := by
  obtain ⟨c, tail, hname, hc⟩ := h.exists_cons
  have hallowed : ¬ (!text.toList.all isAllowed) = true := by
    have hall : text.toList.all isAllowed = true :=
      List.all_eq_true.mpr fun d hd => isAllowed_of_printed (hprinted d hd)
    rw [hall]
    exact Bool.false_ne_true
  -- the text starts with the name itself: no byte order mark, no blank and no marker
  have hmark : dropByteOrderMark (name ++ ':' :: rest) = name ++ ':' :: rest := by
    rw [hname, List.cons_append, dropByteOrderMark]
    intro more heq
    exact absurd (List.cons.inj heq).1 (IsKey.ne_of_head hc (by decide))
  have hstart : Mark.next { rest := name ++ ':' :: rest } = { rest := name ++ ':' :: rest } := by
    rw [hname, List.cons_append, Mark.next]
    exact skipFrom_inked hc.inked (IsKey.ne_of_head hc (by decide)) 0 true _
  have hmarker : Mark.atMarker ['-', '-', '-'] { rest := name ++ ':' :: rest } = false := by
    have hdash := (IsKey.ne_of_head hc (by decide) : c ≠ '-')
    simp [Mark.atMarker, hname, hdash.symm]
  have hvalue : blockValue (2 * text.toList.length + 4) (-1) false { rest := name ++ ':' :: rest }
      = some (document, lineStart []) := by
    rw [blockValue_name h hends hstart (by decide) false]
    exact hread
  rw [outline?]
  simp only [plainBreaks_of_printed hprinted, if_neg hallowed]
  rw [htext] at hvalue ⊢
  simp only [hmark, hstart, hmarker, Bool.false_eq_true, if_false, hvalue]
  rfl

end TraceDebugger.Yaml
