/-
Checksums and letter case.

A checksum is cosmetic if it is told by the case of letters and by nothing else.  Then the address
in a hexadecimal word has two spellings that are alike, and since the one with the checksum is a
function of the other, two addresses are the same in one spelling just if they are in the other.

* `eip55_cosmetic` — the checksums of EIP-55 are cosmetic;
* `exists_ofText` — the two spellings of the address in a word;
* `dedupe_map` — repetitions are found in whichever spelling;
* `exists_callTargets` — the call targets of a trace, in both spellings.
-/
import TraceDebugger.Proofs.Readings
import TraceDebugger.Execution.Step
import Mathlib.Tactic.IntervalCases

namespace TraceDebugger

namespace Text

/-! ### Letter case -/

/-- Two texts are the same up to the case of their letters. -/
def Alike (first second : String) : Prop := lower first = lower second

theorem alike_refl_option (text : Option String) : Option.Rel Alike text text := by
  cases text with
  | none => exact .none
  | some text => exact .some rfl

/-- Where no character has a lower-case form of several characters, or one that depends on its
place, each is lowered by itself. -/
theorem lowerAfter_eq_map {cs : List Char} (h : ∀ c ∈ cs, c ≠ 'Σ' ∧ c ≠ 'İ') :
    ∀ before, lowerAfter before cs = cs.map lowerChar := by
  induction cs with
  | nil => exact fun _ => rfl
  | cons c rest ih =>
    intro before
    obtain ⟨hsigma, hdotted⟩ := h c List.mem_cons_self
    rw [lowerAfter, if_neg hsigma, if_neg hdotted, ih fun d hd => h d (List.mem_cons_of_mem _ hd)]
    rfl

theorem lowerAfter_ne_nil (before : List Char) (c : Char) (rest : List Char) :
    lowerAfter before (c :: rest) ≠ [] := by
  rw [lowerAfter]
  apply List.append_ne_nil_of_left_ne_nil
  split
  · split <;> exact List.cons_ne_nil _ _
  · split <;> exact List.cons_ne_nil _ _

/-- Only the empty text is empty in lower case. -/
theorem lower_eq_empty_iff (text : String) : lower text = "" ↔ text = "" := by
  constructor
  · intro h
    have hchars : lowerChars text.toList = [] := by
      rw [← String.toList_ofList (l := lowerChars text.toList)]
      exact congrArg String.toList h
    cases hcs : text.toList with
    | nil => exact String.toList_eq_nil_iff.mp hcs
    | cons c rest =>
      rw [hcs] at hchars
      exact absurd hchars (lowerAfter_ne_nil _ _ _)
  · rintro rfl
    rfl

/-! ### Hexadecimal digits -/

/-- The hexadecimal digits in either case. -/
def hexAlphabet : List Char := "0123456789abcdefABCDEF".toList

theorem mem_hexAlphabet {c : Char} (h : isHexDigit c = true) : c ∈ hexAlphabet := by
  have hcode : c = Char.ofNat c.toNat := (Char.ofNat_toNat c).symm
  have hrange : (48 ≤ c.toNat ∧ c.toNat ≤ 57) ∨ (97 ≤ c.toNat ∧ c.toNat ≤ 102) ∨
      (65 ≤ c.toNat ∧ c.toNat ≤ 70) := by
    rw [isHexDigit, hexValue?] at h
    split at h
    case isTrue hdigit => exact .inl hdigit
    split at h
    case isTrue hsmall => exact .inr (.inl hsmall)
    split at h
    case isTrue hcapital => exact .inr (.inr hcapital)
    cases h
  -- the digits are three runs of characters
  rw [hcode]
  generalize c.toNat = code at hrange
  rcases hrange with ⟨hlow, hhigh⟩ | ⟨hlow, hhigh⟩ | ⟨hlow, hhigh⟩ <;>
    interval_cases code <;> decide

/-- A digit that is not a capital. -/
def SmallDigit (c : Char) : Prop := isHexDigit c = true ∧ lowerChar c = c

/-- What lower case and capitals make of a hexadecimal digit. -/
structure DigitCase (c : Char) : Prop where
  plain : c ≠ 'Σ' ∧ c ≠ 'İ'
  small : isHexDigit (lowerChar c) = true ∧ lowerChar (lowerChar c) = lowerChar c
  capital : isHexDigit (Address.capital (lowerChar c)) = true
  lower_capital : lowerChar (Address.capital (lowerChar c)) = lowerChar c

theorem digitCase {c : Char} (h : isHexDigit c = true) : DigitCase c := by
  have hall : (hexAlphabet.all fun d => d != 'Σ' && d != 'İ' && isHexDigit (lowerChar d)
      && lowerChar (lowerChar d) == lowerChar d && isHexDigit (Address.capital (lowerChar d))
      && lowerChar (Address.capital (lowerChar d)) == lowerChar d) = true := by decide +kernel
  have hc := List.all_eq_true.mp hall c (mem_hexAlphabet h)
  simp only [Bool.and_eq_true, bne_iff_ne, beq_iff_eq] at hc
  obtain ⟨⟨⟨⟨⟨hsigma, hdotted⟩, hdigit⟩, hsmall⟩, hcapital⟩, hlower⟩ := hc
  exact ⟨⟨hsigma, hdotted⟩, ⟨hdigit, hsmall⟩, hcapital, hlower⟩

theorem lowerChars_digits {cs : List Char} (h : ∀ c ∈ cs, isHexDigit c = true) :
    lowerChars cs = cs.map lowerChar :=
  lowerAfter_eq_map (fun c hc => (digitCase (h c hc)).plain) []

theorem smallDigit_of_lowerChars {cs : List Char} (h : ∀ c ∈ cs, isHexDigit c = true) :
    ∀ c ∈ lowerChars cs, SmallDigit c := by
  intro c hc
  rw [lowerChars_digits h] at hc
  obtain ⟨d, hd, rfl⟩ := List.mem_map.mp hc
  exact (digitCase (h d hd)).small

theorem lowerChars_small {cs : List Char} (h : ∀ c ∈ cs, SmallDigit c) : lowerChars cs = cs := by
  rw [lowerChars_digits fun c hc => (h c hc).1]
  exact (List.map_congr_left fun c hc => (h c hc).2).trans (List.map_id' cs)

theorem lowerChars_marked {cs : List Char} (h : ∀ c ∈ cs, isHexDigit c = true) :
    lowerChars ('0' :: 'x' :: cs) = '0' :: 'x' :: cs.map lowerChar := by
  have hplain : ∀ c ∈ '0' :: 'x' :: cs, c ≠ 'Σ' ∧ c ≠ 'İ' := by
    intro c hc
    obtain rfl | hc := List.mem_cons.mp hc
    · decide
    obtain rfl | hc := List.mem_cons.mp hc
    · decide
    exact (digitCase (h c hc)).plain
  have hmark : lowerChar '0' = '0' ∧ lowerChar 'x' = 'x' := by decide +kernel
  rw [lowerChars, lowerAfter_eq_map hplain, List.map_cons, List.map_cons, hmark.1, hmark.2]

end Text

/-! ### Words -/

namespace Word

/-- The word is a number in hexadecimal, with or without its mark. -/
def Hexadecimal (word : String) : Prop :=
  (Text.dropHexMark word.toList).all Text.isHexDigit = true

instance (word : String) : Decidable (Hexadecimal word) :=
  inferInstanceAs (Decidable (_ = true))

theorem mem_padZeros {width : Nat} {cs : List Char} {c : Char} (h : c ∈ padZeros width cs) :
    c = '0' ∨ c ∈ cs := by
  unfold padZeros at h
  split at h <;> simp only [List.mem_cons, List.mem_append, List.mem_replicate] at h ⊢ <;> tauto

end Word

namespace Step

/-- If the step is a call, its target is a number in hexadecimal. -/
def TargetHexadecimal (step : Step) : Prop :=
  Opcode.isCall step.op = true → ∀ word ∈ step.targetWord?, Word.Hexadecimal word

instance (step : Step) : Decidable step.TargetHexadecimal :=
  inferInstanceAs (Decidable (_ → ∀ word ∈ step.targetWord?, Word.Hexadecimal word))

end Step

/-! ### Addresses -/

namespace Keccak

theorem length_digest (message : List UInt8) : (digest message).length = 32 := by
  rw [digest, List.length_flatMap]
  rfl

end Keccak

namespace Address

open Text

theorem length_bytesHex_digest (message : List UInt8) :
    (bytesHex (Keccak.digest message)).length = 64 := by
  have htwo : (Keccak.digest message).map (fun byte => (byteDigits byte).length)
      = (Keccak.digest message).map fun _ => 2 := rfl
  rw [bytesHex, List.length_flatMap, htwo, List.map_const', List.sum_replicate_nat,
    Keccak.length_digest]

/-- Digits whose case is marked are still digits, and they are the same ones. -/
theorem markCase_digits {digits : List Char} : ∀ {hash : List Char},
    (∀ c ∈ digits, SmallDigit c) → digits.length ≤ hash.length →
      (∀ c ∈ markCase digits hash, isHexDigit c = true) ∧
        (markCase digits hash).map lowerChar = digits := by
  induction digits with
  | nil => exact fun _ _ => ⟨fun c hc => absurd hc List.not_mem_nil, rfl⟩
  | cons digit digits ih =>
    intro hash hsmall hlength
    cases hash with
    | nil => cases hlength
    | cons mark hash =>
      obtain ⟨hdigits, hlower⟩ :=
        ih (fun c hc => hsmall c (List.mem_cons_of_mem _ hc)) (Nat.le_of_succ_le_succ hlength)
      obtain ⟨hdigit, hself⟩ := hsmall digit List.mem_cons_self
      have hcase := digitCase hdigit
      have hcapital := hcase.capital
      have hback := hcase.lower_capital
      rw [hself] at hcapital hback
      -- the digit of the hash decides between two spellings of one digit
      have hmarked : markCase (digit :: digits) (mark :: hash)
          = (if (hexValue? mark).any (8 ≤ ·) then capital digit else digit)
            :: markCase digits hash := rfl
      rw [hmarked, List.map_cons, hlower]
      constructor
      · intro c hc
        obtain rfl | hc := List.mem_cons.mp hc
        · split
          · exact hcapital
          · exact hdigit
        · exact hdigits c hc
      · split
        · rw [hback]
        · rw [hself]

/-- The digits of an address with its checksum are its digits, in another case. -/
theorem lower_checksumDigits {digits : List Char} (h : ∀ c ∈ digits, SmallDigit c)
    (hl : digits.length ≤ 64) :
    (∀ c ∈ checksumDigits digits, isHexDigit c = true) ∧
      (checksumDigits digits).map lowerChar = digits := by
  rw [checksumDigits, lowerChars_small h]
  exact markCase_digits h (by rw [length_bytesHex_digest]; exact hl)

/-- An address in lower case: twenty bytes after their mark. -/
def Plain (address : String) : Prop :=
  ∃ digits, address = String.ofList ('0' :: 'x' :: digits) ∧ digits.length = width ∧
    ∀ c ∈ digits, SmallDigit c

theorem Plain.lower {address : String} (h : Plain address) : Text.lower address = address := by
  obtain ⟨digits, rfl, -, hsmall⟩ := h
  rw [Text.lower, String.toList_ofList, lowerChars_marked fun c hc => (hsmall c hc).1]
  rw [← lowerChars_digits fun c hc => (hsmall c hc).1, lowerChars_small hsmall]

namespace Checksum

/-- A checksum changes the case of letters only: every address in lower case has a spelling with it,
which is alike. -/
def Cosmetic (checksum : Checksum) : Prop :=
  ∀ address, Plain address → ∃ spelled, checksum address = .ok spelled ∧ Text.Alike address spelled

/-- An address in lower case with its checksum instead. -/
def spelling (checksum : Checksum) (address : String) : String :=
  (checksum address).toOption.getD address

variable {checksum : Checksum} {address : String}

theorem Cosmetic.eq_ok (h : checksum.Cosmetic) (ha : Plain address) :
    checksum address = .ok (checksum.spelling address) := by
  obtain ⟨spelled, hspelled, -⟩ := h address ha
  rw [spelling, hspelled]
  rfl

theorem Cosmetic.alike (h : checksum.Cosmetic) (ha : Plain address) :
    Text.Alike address (checksum.spelling address) := by
  obtain ⟨spelled, hspelled, halike⟩ := h address ha
  rw [spelling, hspelled]
  exact halike

/-- The address is got back from its spelling. -/
theorem Cosmetic.lower_spelling (h : checksum.Cosmetic) (ha : Plain address) :
    Text.lower (checksum.spelling address) = address :=
  (h.alike ha).symm.trans ha.lower

end Checksum

/-- The checksums of EIP-55 change the case of letters only. -/
theorem eip55_cosmetic : Checksum.Cosmetic eip55 := by
  rintro _ ⟨digits, rfl, hwidth, hsmall⟩
  have hhex : digits.all isHexDigit = true := List.all_eq_true.mpr fun c hc => (hsmall c hc).1
  obtain ⟨hdigits, hlower⟩ := lower_checksumDigits hsmall (by rw [hwidth]; decide)
  refine ⟨String.ofList ('0' :: 'x' :: checksumDigits digits), ?_, ?_⟩
  · simp only [eip55, String.toList_ofList, List.drop_succ_cons, List.drop_zero, if_pos hhex]
  · have hplain : Plain (String.ofList ('0' :: 'x' :: digits)) := ⟨digits, rfl, hwidth, hsmall⟩
    rw [Text.Alike, hplain.lower, Text.lower, String.toList_ofList, lowerChars_marked hdigits,
      hlower]

theorem digitsOfWord_hexadecimal {word : String} (h : Word.Hexadecimal word) :
    (digitsOfWord (.value (.str word))).length = width ∧
      ∀ c ∈ digitsOfWord (.value (.str word)), SmallDigit c := by
  have hdigits : digitsOfWord (.value (.str word)) = lastOf width
      (Word.padZeros Word.width (lowerChars (dropHexMark word.toList))) := by
    have hnormal : Word.normalize (.value (.str word)) = String.ofList (Word.ofText word.toList) :=
      rfl
    rw [digitsOfWord, hnormal, String.toList_ofList, Word.ofText]
  rw [hdigits, lastOf]
  constructor
  · -- a word is wider than an address
    rw [List.length_drop, Word.length_padZeros, Word.width, width]
    omega
  · intro c hc
    obtain rfl | hc := Word.mem_padZeros (List.mem_of_mem_drop hc)
    · exact ⟨by decide, by decide +kernel⟩
    · exact smallDigit_of_lowerChars (List.all_eq_true.mp h) c hc

/-- The address in a hexadecimal word can be told in both spellings. -/
theorem exists_ofText {checksum : Checksum} (hc : checksum.Cosmetic) {word : String}
    (h : Word.Hexadecimal word) :
    ∃ address, Plain address ∧ ofText none word = .ok address ∧
      ofText (some checksum) word = .ok (checksum.spelling address) := by
  obtain ⟨hwidth, hsmall⟩ := digitsOfWord_hexadecimal h
  have hplain : Plain (String.ofList ('0' :: 'x' :: digitsOfWord (.value (.str word)))) :=
    ⟨_, rfl, hwidth, hsmall⟩
  exact ⟨_, hplain, rfl, hc.eq_ok hplain⟩

/-! ### Call targets -/

/-- The values that have been seen once another one is. -/
def see (seen : List String) (value : String) : List String :=
  if seen.contains value then seen else value :: seen

theorem dedupe_eq (values : List String) : dedupe values = (values.foldl see []).reverse := rfl

theorem mem_see {seen : List String} {value other : String} (h : other ∈ see seen value) :
    other ∈ seen ∨ other = value := by
  rw [see] at h
  split at h
  · exact .inl h
  · exact (List.mem_cons.mp h).symm

theorem mem_foldl_see {values : List String} : ∀ {seen : List String} {value : String},
    value ∈ values.foldl see seen → value ∈ seen ∨ value ∈ values := by
  induction values with
  | nil => exact fun h => .inl h
  | cons first rest ih =>
    intro seen value h
    obtain h | h := ih h
    · obtain h | rfl := mem_see h
      · exact .inl h
      · exact .inr List.mem_cons_self
    · exact .inr (List.mem_cons_of_mem _ h)

theorem mem_of_mem_dedupe {values : List String} {value : String} (h : value ∈ dedupe values) :
    value ∈ values := by
  rw [dedupe_eq, List.mem_reverse] at h
  exact (mem_foldl_see h).resolve_left List.not_mem_nil

/-- A value has been seen just if it has been seen after a change that can be undone. -/
theorem see_map {change undo : String → String} {seen : List String} {value : String}
    (hs : ∀ other ∈ seen, undo (change other) = other) (hv : undo (change value) = value) :
    see (seen.map change) (change value) = (see seen value).map change := by
  have hmem : change value ∈ seen.map change ↔ value ∈ seen := by
    constructor
    · intro hm
      obtain ⟨other, hother, heq⟩ := List.mem_map.mp hm
      rw [← hv, ← heq, hs other hother]
      exact hother
    · exact List.mem_map_of_mem
  simp only [see, List.contains_iff_mem, hmem]
  split <;> rfl

theorem foldl_see_map {change undo : String → String} {values : List String}
    (h : ∀ value ∈ values, undo (change value) = value) :
    ∀ {seen : List String}, (∀ value ∈ seen, undo (change value) = value) →
      (values.map change).foldl see (seen.map change) = (values.foldl see seen).map change := by
  induction values with
  | nil => exact fun _ => rfl
  | cons first rest ih =>
    intro seen hseen
    have hfirst := h first List.mem_cons_self
    rw [List.map_cons, List.foldl_cons, List.foldl_cons, see_map hseen hfirst]
    refine ih (fun value hv => h value (List.mem_cons_of_mem _ hv)) fun value hv => ?_
    obtain hv | rfl := mem_see hv
    · exact hseen value hv
    · exact hfirst

/-- Repetitions are the same ones after a change that can be undone. -/
theorem dedupe_map {change undo : String → String} {values : List String}
    (h : ∀ value ∈ values, undo (change value) = value) :
    dedupe (values.map change) = (dedupe values).map change := by
  rw [dedupe_eq, dedupe_eq, List.map_reverse]
  exact congrArg List.reverse (foldl_see_map h fun value hv => absurd hv List.not_mem_nil)

theorem exists_mapM_ofText {checksum : Checksum} (hc : checksum.Cosmetic) {words : List String}
    (h : ∀ word ∈ words, Word.Hexadecimal word) :
    ∃ addresses, (∀ address ∈ addresses, Plain address) ∧
      words.mapM (ofText none) = .ok addresses ∧
      words.mapM (ofText (some checksum)) = .ok (addresses.map checksum.spelling) := by
  induction words with
  | nil => exact ⟨[], fun _ ha => absurd ha List.not_mem_nil, rfl, rfl⟩
  | cons word rest ih =>
    obtain ⟨address, hplain, hsmall, hspelled⟩ := exists_ofText hc (h word List.mem_cons_self)
    obtain ⟨addresses, hplains, hsmalls, hspelleds⟩ :=
      ih fun word hw => h word (List.mem_cons_of_mem _ hw)
    refine ⟨address :: addresses, ?_, ?_, ?_⟩
    · exact List.forall_mem_cons.mpr ⟨hplain, hplains⟩
    · rw [List.mapM_cons, hsmall, hsmalls]
      rfl
    · rw [List.mapM_cons, hspelled, hspelleds]
      rfl

end Address

open Address in
/-- The call targets of a trace can be told in both spellings, and they are the same ones. -/
theorem exists_callTargets {checksum : Checksum} (hc : checksum.Cosmetic) {steps : List Step}
    (h : ∀ step ∈ steps, step.TargetHexadecimal) :
    ∃ addresses, (∀ address ∈ addresses, Plain address) ∧ callTargets none steps = .ok addresses ∧
      callTargets (some checksum) steps = .ok (addresses.map checksum.spelling) := by
  let words := (steps.filter fun step => Opcode.announcesTarget step.op).filterMap Step.targetWord?
  have hwords : ∀ word ∈ words, Word.Hexadecimal word := by
    intro word hword
    obtain ⟨step, hstep, htarget⟩ := List.mem_filterMap.mp hword
    obtain ⟨hstep, hannounces⟩ := List.mem_filter.mp hstep
    exact h step hstep (Opcode.isCall_of_announcesTarget hannounces) word htarget
  obtain ⟨addresses, hplain, hsmall, hspelled⟩ := exists_mapM_ofText hc hwords
  refine ⟨dedupe addresses, fun address ha => hplain address (mem_of_mem_dedupe ha), ?_, ?_⟩
  · show (words.mapM (ofText none)).map dedupe = _
    rw [hsmall]
    rfl
  · show (words.mapM (ofText (some checksum))).map dedupe = _
    rw [hspelled]
    exact congrArg Except.ok (dedupe_map fun address ha => hc.lower_spelling (hplain address ha))

end TraceDebugger
