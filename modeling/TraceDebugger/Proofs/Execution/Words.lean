/-
The spellings of a word.

A number below `2 ^ 256` can be given as itself, as bytes, or as hexadecimal text in any letter
case, with or without a mark and with any leading zeros.  All its spellings have one fixed-width
form, so the steps of a trace do not depend on how its words are spelled.

* `normalize_spells` — the fixed-width form of a spelling is the digits of its number;
* `Address.digitsOfWord_spells` — the address in a word is the low digits of its number;
* `Entry.toStepsFrom_respelled` — entries that differ in the spelling of words have the same steps;
* `spellings_agree` — the main result.
-/
import TraceDebugger.Execution.StructLog
import TraceDebugger.Proofs.Text.Hexadecimal

namespace TraceDebugger

open Text

/-- What may stand before hexadecimal digits. -/
def IsHexMark (mark : List Char) : Prop := mark = [] ∨ mark = ['0', 'x'] ∨ mark = ['0', 'X']

/-- A word spells a number. -/
inductive RawWord.Spells : RawWord → ℕ → Prop
  | number {n : ℕ} (h : n < 2 ^ 256) : Spells (.value (.int n)) n
  | bytes {content : List UInt8} (h : content.length ≤ 32) :
    Spells (.bytes content) (bytesNumber content)
  | text {mark digits : List Char} (hmark : IsHexMark mark)
    (hdigits : ∀ c ∈ digits, isHexDigit c = true) (hwidth : digits.length ≤ 64) :
    Spells (.value (.str (String.ofList (mark ++ digits)))) (hexNumber digits)

/-- Two words are the same, or they spell the same number. -/
def RawWord.SameNumber (word other : RawWord) : Prop :=
  word = other ∨ ∃ n, word.Spells n ∧ other.Spells n

namespace StructLog

/-- The list of words that is given. -/
def Words.items? : Words → Option (List RawWord)
  | .value (.arr words) => some (words.map .value)
  | .value _ => none
  | .list words => some words

/-- Words differ in their spelling only. -/
def Words.Respelled (words other : Words) : Prop :=
  words = other ∨ ∃ items items', words.items? = some items ∧ other.items? = some items' ∧
    List.Forall₂ RawWord.SameNumber items items'

/-- Two members have the same name, and unless they are the words of a stack or of a memory, the
same value. -/
def SameMember (member other : String × Json) : Prop :=
  member.1 = other.1 ∧ (member.1 ≠ "stack" → member.1 ≠ "memory" → member.2 = other.2)

/-- Values are the same up to the words of a stack and of a memory. -/
inductive SameMembers : Json → Json → Prop
  | refl (value : Json) : SameMembers value value
  | obj {members others : List (String × Json)} (h : List.Forall₂ SameMember members others) :
    SameMembers (.obj members) (.obj others)

/-- Two entries differ in the spelling of the words of their stacks and of their memories only. -/
structure Entry.Respelled (entry other : Entry) : Prop where
  members : SameMembers entry.members other.members
  stack : entry.stack.Respelled other.stack
  memory : entry.memory.Respelled other.memory

end StructLog

/-! ### The form of a word -/

namespace Word

/-- Digits carry no sign, so zeros are put before all of them. -/
theorem padZeros_digits {cs : List Char} (h : ∀ c ∈ cs, isHexDigit c = true) (width : ℕ) :
    padZeros width cs = List.replicate (width - cs.length) '0' ++ cs := by
  unfold padZeros
  split
  · exact absurd (h '-' List.mem_cons_self) (by decide)
  · exact absurd (h '+' List.mem_cons_self) (by decide)
  · rfl

theorem dropHexMark_append {mark digits : List Char} (hmark : IsHexMark mark)
    (hdigits : ∀ c ∈ digits, isHexDigit c = true) : dropHexMark (mark ++ digits) = digits := by
  obtain rfl | rfl | rfl := hmark
  · -- the letter of a mark is no digit
    rw [List.nil_append]
    unfold dropHexMark
    split
    · exact absurd (hdigits 'x' (by simp)) (by decide)
    · exact absurd (hdigits 'X' (by simp)) (by decide)
    · rfl
  · rfl
  · rfl

/-- A text of digits in any case, with or without a mark, is brought to the digits of its number. -/
theorem ofText_writtenOn {mark digits : List Char} (hmark : IsHexMark mark)
    (hdigits : ∀ c ∈ digits, isHexDigit c = true) (hwidth : digits.length ≤ 64) :
    WrittenOn 64 (hexNumber digits) (ofText (mark ++ digits)) := by
  have hsmall := smallDigit_of_lowerChars hdigits
  have hlength : (lowerChars digits).length = digits.length := by
    rw [lowerChars_digits hdigits, List.length_map]
  rw [ofText, dropHexMark_append hmark hdigits, padZeros_digits fun c hc => (hsmall c hc).1,
    ← hexNumber_lowerChars hdigits]
  exact writtenOn_zeros hsmall (hlength ▸ hwidth)

theorem ofInt_writtenOn {n : ℕ} (h : n < 2 ^ 256) : WrittenOn 64 n (ofInt n) := by
  obtain ⟨hsmall, hnumber⟩ := hexDigits_spec n
  have hdigits : ofInt n = padZeros width (hexDigits n) := by
    rw [ofInt, if_neg (by omega), Int.natAbs_natCast]
  have hlength : (hexDigits n).length ≤ 64 := length_hexDigits_le (by decide) (by omega)
  rw [hdigits, padZeros_digits fun c hc => (hsmall c hc).1]
  have hwritten := writtenOn_zeros hsmall hlength
  rwa [hnumber] at hwritten

/-- The digits of bytes, which some libraries put after a mark, are brought to their number. -/
theorem ofText_bytesHex {mark : List Char} (hmark : IsHexMark mark) {content : List UInt8}
    (h : content.length ≤ 32) :
    WrittenOn 64 (bytesNumber content) (ofText (mark ++ bytesHex content)) := by
  obtain ⟨hlength, hsmall, hnumber⟩ := bytesHex_spec content
  rw [← hnumber]
  exact ofText_writtenOn hmark (fun c hc => (hsmall c hc).1) (by omega)

/-- The fixed-width form of a spelling is the digits of its number. -/
theorem normalize_spells {word : RawWord} {n : ℕ} (h : word.Spells n) :
    WrittenOn 64 n (normalize word).toList := by
  cases h with
  | number h =>
    show WrittenOn 64 n (String.ofList (ofInt n)).toList
    rw [String.toList_ofList]
    exact ofInt_writtenOn h
  | @bytes content h =>
    show WrittenOn 64 _ (String.ofList (ofText (bytesHex content))).toList
    rw [String.toList_ofList]
    exact ofText_bytesHex (.inl rfl) h
  | @text mark digits hmark hdigits hwidth =>
    show WrittenOn 64 _ (String.ofList (ofText (String.ofList (mark ++ digits)).toList)).toList
    rw [String.toList_ofList, String.toList_ofList]
    exact ofText_writtenOn hmark hdigits hwidth

/-- Digits on the width of a word are a spelling of their number. -/
theorem spells_of_writtenOn {digits : List Char} {n : ℕ} (h : WrittenOn 64 n digits) :
    RawWord.Spells (.value (.str (String.ofList digits))) n := by
  rw [← h.number]
  exact .text (.inl rfl) (fun c hc => (h.small c hc).1) h.length.le

theorem normalize_eq {word other : RawWord} {n : ℕ} (h : word.Spells n) (h' : other.Spells n) :
    normalize word = normalize other :=
  String.toList_injective ((normalize_spells h).unique (normalize_spells h'))

theorem normalize_sameNumber {word other : RawWord} (h : word.SameNumber other) :
    normalize word = normalize other := by
  obtain rfl | ⟨n, hword, hother⟩ := h
  · rfl
  · exact normalize_eq hword hother

end Word

/-- The address in a word is the low digits of its number. -/
theorem Address.digitsOfWord_spells {word : RawWord} {n : ℕ} (h : word.Spells n) :
    WrittenOn 40 (n % 2 ^ 160) (digitsOfWord word) := by
  have hform := Word.normalize_spells h
  rw [digitsOfWord, lastOf, hform.length]
  have hlow : 40 ≤ 64 := by decide
  exact hform.drop hlow

/-! ### Entries -/

namespace StructLog

theorem normalize_forall₂ {words others : List RawWord}
    (h : List.Forall₂ RawWord.SameNumber words others) :
    words.map Word.normalize = others.map Word.normalize := by
  induction h with
  | nil => rfl
  | cons hword _ ih => rw [List.map_cons, List.map_cons, Word.normalize_sameNumber hword, ih]

namespace Words

theorem normalized_of_items? {words : Words} {items : List RawWord}
    (h : words.items? = some items) : words.normalized = .ok (some (items.map Word.normalize)) := by
  unfold items? at h
  split at h
  · obtain rfl := Option.some.inj h
    rw [List.map_map]
    rfl
  · cases h
  · obtain rfl := Option.some.inj h
    rfl

theorem memoryText_of_items? {words : Words} {items : List RawWord}
    (h : words.items? = some items) :
    words.memoryText = some (String.join (items.map Word.normalize)) := by
  unfold items? at h
  split at h
  · obtain rfl := Option.some.inj h
    rw [List.map_map]
    rfl
  · cases h
  · obtain rfl := Option.some.inj h
    rfl

variable {words other : Words}

theorem Respelled.normalized (h : words.Respelled other) : words.normalized = other.normalized := by
  obtain rfl | ⟨items, items', hitems, hitems', hsame⟩ := h
  · rfl
  · rw [normalized_of_items? hitems, normalized_of_items? hitems', normalize_forall₂ hsame]

theorem Respelled.memoryText (h : words.Respelled other) : words.memoryText = other.memoryText := by
  obtain rfl | ⟨items, items', hitems, hitems', hsame⟩ := h
  · rfl
  · rw [memoryText_of_items? hitems, memoryText_of_items? hitems', normalize_forall₂ hsame]

end Words

theorem member?_forall₂ {members others : List (String × Json)}
    (h : List.Forall₂ SameMember members others) {name : String} (hstack : name ≠ "stack")
    (hmemory : name ≠ "memory") : Json.member? name members = Json.member? name others := by
  induction h with
  | nil => rfl
  | @cons member other members others hsame _ ih =>
    obtain ⟨key, value⟩ := member
    obtain ⟨key', value'⟩ := other
    obtain ⟨rfl, hvalue⟩ := hsame
    by_cases hkey : key = name
    · subst hkey
      have hsame : value = value' := hvalue hstack hmemory
      simp [Json.member?, hsame]
    · simp [Json.member?, hkey, ih]

namespace SameMembers

variable {value other : Json} {name : String}

theorem get? (h : SameMembers value other) (hstack : name ≠ "stack") (hmemory : name ≠ "memory") :
    value.get? name = other.get? name := by
  cases h with
  | refl => rfl
  | obj h => exact member?_forall₂ h hstack hmemory

theorem require (h : SameMembers value other) (hstack : name ≠ "stack")
    (hmemory : name ≠ "memory") : value.require name = other.require name := by
  cases h with
  | refl => rfl
  | obj h => rw [Json.require, Json.require, member?_forall₂ h hstack hmemory]

end SameMembers

namespace Entry

variable {entry other : Entry}

theorem Respelled.toStep (h : entry.Respelled other) (index : Int) :
    entry.toStep index = other.toStep index := by
  have hposition : position entry.members = position other.members := by
    rw [position, position, h.members.require (by decide) (by decide),
      h.members.require (by decide) (by decide)]
  have hnumber : ∀ name missing, name ≠ "stack" → name ≠ "memory" →
      number name missing entry.members = number name missing other.members := by
    intro name missing hstack hmemory
    rw [number, number, h.members.get? hstack hmemory]
  have hoptional : ∀ name, name ≠ "stack" → name ≠ "memory" →
      optional name entry.members = optional name other.members := by
    intro name hstack hmemory
    rw [optional, optional, h.members.get? hstack hmemory]
  rw [Entry.toStep, Entry.toStep, hposition, hnumber "gas" 0 (by decide) (by decide),
    hnumber "gasCost" 0 (by decide) (by decide), hnumber "depth" 1 (by decide) (by decide),
    h.stack.normalized, h.memory.memoryText, hoptional "storage" (by decide) (by decide),
    hoptional "error" (by decide) (by decide), hoptional "address" (by decide) (by decide),
    hoptional "code" (by decide) (by decide)]

/-- Entries that differ in the spelling of words only have the same steps. -/
theorem toStepsFrom_respelled {entries others : List Entry}
    (h : List.Forall₂ Respelled entries others) (first : Int) :
    toStepsFrom first entries = toStepsFrom first others := by
  induction h generalizing first with
  | nil => rfl
  | cons hentry _ ih => rw [toStepsFrom, toStepsFrom, hentry.toStep, ih]

end Entry

end StructLog

/-! ### The main result -/

/-- The lower-case hexadecimal digits. -/
def lowerHexDigits : List Char := "0123456789abcdef".toList

theorem mem_lowerHexDigits {c : Char} (h : SmallDigit c) : c ∈ lowerHexDigits := by
  have hall : ∀ d < 16, hexDigit d ∈ lowerHexDigits := by decide
  rw [h.eq_hexDigit]
  exact hall _ (digitValue_lt h.1)

open StructLog in
/-- **All spellings of a word agree.**  For every number below `2 ^ 256` there are 64 lower-case
digits of that value that every spelling of the number is brought to, which are left as they are,
and whose last 40 are the address in every text that spells it; a mark before the digits of bytes
makes no difference.  Hence entries that differ in the spelling of their words only have the same
steps. -/
theorem spellings_agree :
    (∀ n < 2 ^ 256, ∃ digits : List Char,
      digits.length = 64 ∧ (∀ c ∈ digits, c ∈ lowerHexDigits) ∧ hexNumber digits = n ∧
      (∀ word : RawWord, word.Spells n → Word.normalize word = String.ofList digits) ∧
      Word.normalizeText (String.ofList digits) = String.ofList digits ∧
      (∀ mark content, IsHexMark mark → content.length ≤ 32 → bytesNumber content = n →
        Word.ofText (mark ++ bytesHex content) = digits) ∧
      ∀ text, RawWord.Spells (.value (.str text)) n → ∃ low : List Char,
        low.length = 40 ∧ (∀ c ∈ low, c ∈ lowerHexDigits) ∧ hexNumber low = n % 2 ^ 160 ∧
        Address.ofText none text = .ok (String.ofList ('0' :: 'x' :: low))) ∧
    ∀ entries others : List Entry, List.Forall₂ Entry.Respelled entries others →
      Entry.toSteps entries = Entry.toSteps others := by
  refine ⟨fun n hn => ?_, fun entries others h => Entry.toStepsFrom_respelled h 0⟩
  -- the digits are those of the number itself, filled up to the width of a word
  have hform : WrittenOn 64 n (hexPadded 64 n) := writtenOn_hexPadded (by decide) (by omega)
  have hnormal : ∀ word : RawWord, word.Spells n →
      Word.normalize word = String.ofList (hexPadded 64 n) := by
    intro word hword
    have heq := (Word.normalize_spells hword).unique hform
    rw [← heq, String.ofList_toList]
  refine ⟨hexPadded 64 n, hform.length, fun c hc => mem_lowerHexDigits (hform.small c hc),
    hform.number, hnormal, hnormal _ (Word.spells_of_writtenOn hform), ?_, ?_⟩
  · rintro mark content hmark hlength rfl
    exact (Word.ofText_bytesHex hmark hlength).unique hform
  · intro text htext
    have hlow := Address.digitsOfWord_spells htext
    exact ⟨_, hlow.length, fun c hc => mem_lowerHexDigits (hlow.small c hc), hlow.number, rfl⟩

/-- Some spellings of one number. -/
def beefSpellings : List RawWord :=
  [.value (.int 0xbeef), .bytes [0xbe, 0xef], .value (.str "0XbEEf"), .value (.str "00beef")]

/-- A call with a word on its stack and in its memory. -/
def callWith (word : RawWord) : StructLog.Entry where
  members := .obj [("pc", .int 0), ("op", .str "CALL")]
  stack := .list [.value (.int 1), word, .value (.int 0)]
  memory := .list [word]

theorem beefSpellings_spell : ∀ word ∈ beefSpellings, word.Spells 0xbeef := by
  have hplain : hexNumber "00beef".toList = 0xbeef := by decide
  have hmarked : hexNumber "bEEf".toList = 0xbeef := by decide
  have hmark : IsHexMark ['0', 'X'] := .inr (.inr rfl)
  have hnone : IsHexMark [] := .inl rfl
  have hbytes : bytesNumber [0xbe, 0xef] = 0xbeef := by decide
  simp only [beefSpellings, List.forall_mem_cons]
  refine ⟨.number (by decide), ?_, ?_, ?_, nofun⟩
  · rw [← hbytes]
    exact .bytes (by decide)
  · rw [← hmarked]
    exact .text hmark (List.all_eq_true.mp rfl) (by decide)
  · rw [← hplain]
    exact .text hnone (List.all_eq_true.mp rfl) (by decide)

open StructLog in
/-- All of them are one word, and a call with any of them is one step. -/
theorem beef_spellings_agree :
    (∃ digits : List Char, digits.length = 64 ∧ hexNumber digits = 0xbeef ∧
      ∀ word ∈ beefSpellings, Word.normalize word = String.ofList digits) ∧
    ∀ word ∈ beefSpellings, ∀ other ∈ beefSpellings,
      Entry.toSteps [callWith word] = Entry.toSteps [callWith other] := by
  obtain ⟨hforms, hsteps⟩ := spellings_agree
  obtain ⟨digits, hlength, -, hnumber, hnormal, -⟩ := hforms 0xbeef (by decide)
  refine ⟨⟨digits, hlength, hnumber, fun word hword => hnormal word (beefSpellings_spell word hword)⟩,
    fun word hword other hother => hsteps _ _ (.cons ?_ .nil)⟩
  have hsame : word.SameNumber other :=
    .inr ⟨_, beefSpellings_spell word hword, beefSpellings_spell other hother⟩
  exact ⟨.refl _, .inr ⟨_, _, rfl, rfl, .cons (.inl rfl) (.cons hsame (.cons (.inl rfl) .nil))⟩,
    .inr ⟨_, _, rfl, rfl, .cons hsame .nil⟩⟩

end TraceDebugger
