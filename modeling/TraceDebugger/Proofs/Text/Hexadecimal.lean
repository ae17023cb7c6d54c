/-
Numbers in hexadecimal text.

Digits write a number, the first one in the highest place.  In lower case and on a given width there
is one way to write it.

* `hexNumber` — the number that digits write; `bytesNumber` — the number that bytes write;
* `eq_of_hexNumber_eq` — digits in lower case are told by their number and their width;
* `bytesHex_spec` — the digits of bytes write the number of the bytes;
* `WrittenOn.drop` — the last digits of a number are those of its remainder.
-/
import TraceDebugger.Proofs.Execution.Checksum
import Mathlib.Data.Nat.Digits.Lemmas

namespace TraceDebugger.Text

/-- The value of a digit. -/
def digitValue (c : Char) : ℕ := (hexValue? c).getD 0

/-- The number that digits write. -/
def hexNumber (cs : List Char) : ℕ := Nat.ofDigits 16 (cs.map digitValue).reverse

/-- The number that bytes write, the first one in the highest place. -/
def bytesNumber (bytes : List UInt8) : ℕ := Nat.ofDigits 256 (bytes.map UInt8.toNat).reverse

/-! ### Single digits -/

theorem digitValue_lt {c : Char} (h : isHexDigit c = true) : digitValue c < 16 := by
  have hall : (hexAlphabet.all fun d => digitValue d < 16) = true := by decide
  exact of_decide_eq_true (List.all_eq_true.mp hall c (mem_hexAlphabet h))

theorem digitValue_lowerChar {c : Char} (h : isHexDigit c = true) :
    digitValue (lowerChar c) = digitValue c := by
  have hall : (hexAlphabet.all fun d => digitValue (lowerChar d) == digitValue d) = true := by
    decide +kernel
  exact beq_iff_eq.mp (List.all_eq_true.mp hall c (mem_hexAlphabet h))

/-- A digit in lower case is told by its value. -/
theorem SmallDigit.eq_hexDigit {c : Char} (h : SmallDigit c) : c = hexDigit (digitValue c) := by
  have hall : (hexAlphabet.all fun d => lowerChar d == hexDigit (digitValue d)) = true := by
    decide +kernel
  obtain ⟨hdigit, hsmall⟩ := h
  rw [← beq_iff_eq.mp (List.all_eq_true.mp hall c (mem_hexAlphabet hdigit)), hsmall]

theorem smallDigit_hexDigit {d : ℕ} (h : d < 16) :
    SmallDigit (hexDigit d) ∧ digitValue (hexDigit d) = d := by
  have hall : ∀ d < 16, (isHexDigit (hexDigit d) = true ∧ lowerChar (hexDigit d) = hexDigit d) ∧
      digitValue (hexDigit d) = d := by decide +kernel
  exact hall d h

theorem smallDigit_zero : SmallDigit '0' := (smallDigit_hexDigit (d := 0) (by decide)).1

/-! ### Numbers -/

theorem hexNumber_append (cs ds : List Char) :
    hexNumber (cs ++ ds) = hexNumber cs * 16 ^ ds.length + hexNumber ds := by
  rw [hexNumber, List.map_append, List.reverse_append, Nat.ofDigits_append, List.length_reverse,
    List.length_map, Nat.mul_comm, Nat.add_comm]
  rfl

theorem hexNumber_singleton (c : Char) : hexNumber [c] = digitValue c :=
  Nat.ofDigits_singleton

theorem bytesNumber_cons (byte : UInt8) (rest : List UInt8) :
    bytesNumber (byte :: rest) = byte.toNat * 256 ^ rest.length + bytesNumber rest := by
  rw [bytesNumber, List.map_cons, List.reverse_cons, Nat.ofDigits_append, List.length_reverse,
    List.length_map, Nat.ofDigits_singleton, Nat.mul_comm, Nat.add_comm]
  rfl

theorem hexNumber_lt {cs : List Char} (h : ∀ c ∈ cs, isHexDigit c = true) :
    hexNumber cs < 16 ^ cs.length := by
  have hlt := Nat.ofDigits_lt_base_pow_length (b := 16) (l := (cs.map digitValue).reverse)
    (by decide) fun d hd => by
      obtain ⟨c, hc, rfl⟩ := List.mem_map.mp (List.mem_reverse.mp hd)
      exact digitValue_lt (h c hc)
  rwa [List.length_reverse, List.length_map] at hlt

theorem hexNumber_zeros (count : ℕ) (cs : List Char) :
    hexNumber (List.replicate count '0' ++ cs) = hexNumber cs := by
  have hzero : digitValue '0' = 0 := by decide
  rw [hexNumber, List.map_append, List.map_replicate, List.reverse_append, List.reverse_replicate,
    hzero, Nat.ofDigits_append_replicate_zero]
  rfl

theorem hexNumber_lowerChars {cs : List Char} (h : ∀ c ∈ cs, isHexDigit c = true) :
    hexNumber (lowerChars cs) = hexNumber cs := by
  have hvalues : (cs.map lowerChar).map digitValue = cs.map digitValue := by
    rw [List.map_map]
    exact List.map_congr_left fun c hc => digitValue_lowerChar (h c hc)
  rw [hexNumber, lowerChars_digits h, hvalues]
  rfl

/-- Digits in lower case are told by their number and their width. -/
theorem eq_of_hexNumber_eq {cs ds : List Char} (hcs : ∀ c ∈ cs, SmallDigit c)
    (hds : ∀ d ∈ ds, SmallDigit d) (hlength : cs.length = ds.length)
    (h : hexNumber cs = hexNumber ds) : cs = ds := by
  have hlt : ∀ {l : List Char}, (∀ c ∈ l, SmallDigit c) →
      ∀ d ∈ (l.map digitValue).reverse, d < 16 := by
    intro l hl d hd
    obtain ⟨c, hc, rfl⟩ := List.mem_map.mp (List.mem_reverse.mp hd)
    exact digitValue_lt (hl c hc).1
  have hback : ∀ {l : List Char}, (∀ c ∈ l, SmallDigit c) →
      (l.map digitValue).map hexDigit = l := by
    intro l hl
    rw [List.map_map]
    exact (List.map_congr_left fun c hc => (hl c hc).eq_hexDigit.symm).trans (List.map_id' l)
  have hvalues : (cs.map digitValue).reverse = (ds.map digitValue).reverse :=
    Nat.ofDigits_inj_of_len_eq (by decide) (by simp [hlength]) (hlt hcs) (hlt hds) h
  rw [← hback hcs, ← hback hds, List.reverse_inj.mp hvalues]

/-! ### Digits of a number -/

theorem hexDigits_spec (n : ℕ) :
    (∀ c ∈ hexDigits n, SmallDigit c) ∧ hexNumber (hexDigits n) = n := by
  induction n using Nat.strong_induction_on with
  | h n ih =>
    by_cases hn : n < 16
    · obtain ⟨hsmall, hvalue⟩ := smallDigit_hexDigit hn
      rw [hexDigits, Nat.toDigits_of_lt_base hn, hexNumber_singleton]
      exact ⟨List.forall_mem_singleton.mpr hsmall, hvalue⟩
    · obtain ⟨hall, hnumber⟩ := ih (n / 16) (by omega)
      obtain ⟨hsmall, hvalue⟩ := smallDigit_hexDigit (Nat.mod_lt n (by decide : 0 < 16))
      have hdigits : hexDigits n = hexDigits (n / 16) ++ [hexDigit (n % 16)] :=
        Nat.toDigits_of_base_le (by decide) (Nat.not_lt.mp hn)
      rw [hdigits, hexNumber_append, hnumber, hexNumber_singleton, hvalue]
      refine ⟨List.forall_mem_append.mpr ⟨hall, List.forall_mem_singleton.mpr hsmall⟩, ?_⟩
      exact Nat.div_add_mod' n 16

/-- Digits in lower case write a number on a width. -/
structure WrittenOn (width n : ℕ) (cs : List Char) : Prop where
  length : cs.length = width
  small : ∀ c ∈ cs, SmallDigit c
  number : hexNumber cs = n

theorem WrittenOn.unique {width n : ℕ} {cs ds : List Char} (h : WrittenOn width n cs)
    (h' : WrittenOn width n ds) : cs = ds :=
  eq_of_hexNumber_eq h.small h'.small (h.length.trans h'.length.symm)
    (h.number.trans h'.number.symm)

/-- Digits in lower case with zeros before them. -/
theorem writtenOn_zeros {cs : List Char} (h : ∀ c ∈ cs, SmallDigit c) {width : ℕ}
    (hwidth : cs.length ≤ width) :
    WrittenOn width (hexNumber cs) (List.replicate (width - cs.length) '0' ++ cs) where
  length := by
    rw [List.length_append, List.length_replicate]
    omega
  small c hc := by
    obtain hc | hc := List.mem_append.mp hc
    · rw [List.eq_of_mem_replicate hc]
      exact smallDigit_zero
    · exact h c hc
  number := hexNumber_zeros _ _

theorem length_hexDigits_le {n width : ℕ} (hwidth : 0 < width) (h : n < 16 ^ width) :
    (hexDigits n).length ≤ width :=
  (Nat.length_toDigits_le_iff (by decide) hwidth).mpr h

theorem writtenOn_hexPadded {n width : ℕ} (hwidth : 0 < width) (h : n < 16 ^ width) :
    WrittenOn width n (hexPadded width n) := by
  obtain ⟨hsmall, hnumber⟩ := hexDigits_spec n
  have hwritten := writtenOn_zeros hsmall (length_hexDigits_le hwidth h)
  rwa [hnumber] at hwritten

/-- The last digits of a number write its remainder. -/
theorem WrittenOn.drop {width n : ℕ} {cs : List Char} (h : WrittenOn width n cs) {low : ℕ}
    (hlow : low ≤ width) : WrittenOn low (n % 16 ^ low) (cs.drop (width - low)) := by
  have hlength : (cs.drop (width - low)).length = low := by
    rw [List.length_drop, h.length]
    omega
  have hsmall : ∀ c ∈ cs.drop (width - low), SmallDigit c := fun c hc =>
    h.small c (List.mem_of_mem_drop hc)
  have hlt := hexNumber_lt fun c hc => (hsmall c hc).1
  rw [hlength] at hlt
  have hsplit := hexNumber_append (cs.take (width - low)) (cs.drop (width - low))
  rw [List.take_append_drop, h.number, hlength] at hsplit
  refine ⟨hlength, hsmall, ?_⟩
  rw [hsplit, Nat.mul_add_mod', Nat.mod_eq_of_lt hlt]

/-! ### Bytes -/

theorem bytesHex_spec (bytes : List UInt8) :
    WrittenOn (2 * bytes.length) (bytesNumber bytes) (bytesHex bytes) := by
  induction bytes with
  | nil => exact ⟨rfl, nofun, rfl⟩
  | cons byte rest ih =>
    have hbyte : byte.toNat < 256 := byte.toNat_lt
    obtain ⟨hhigh, hhighValue⟩ := smallDigit_hexDigit (d := byte.toNat / 16) (by omega)
    obtain ⟨hlow, hlowValue⟩ := smallDigit_hexDigit (Nat.mod_lt byte.toNat (by decide : 0 < 16))
    have hcons : bytesHex (byte :: rest)
        = [hexDigit (byte.toNat / 16)] ++ [hexDigit (byte.toNat % 16)] ++ bytesHex rest := rfl
    have hpower : 16 ^ (2 * rest.length) = 256 ^ rest.length := Nat.pow_mul 16 2 rest.length
    rw [hcons]
    refine ⟨?_, ?_, ?_⟩
    · simp only [List.length_append, List.length_cons, List.length_nil, ih.length]
      omega
    · simp only [List.forall_mem_append, List.forall_mem_singleton]
      exact ⟨⟨hhigh, hlow⟩, ih.small⟩
    · rw [hexNumber_append, hexNumber_append, hexNumber_singleton, hexNumber_singleton, hhighValue,
        hlowValue, ih.number, ih.length, hpower, bytesNumber_cons, List.length_singleton, pow_one,
        Nat.div_add_mod']

end TraceDebugger.Text
