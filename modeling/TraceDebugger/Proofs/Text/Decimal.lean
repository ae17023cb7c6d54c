/-
Integers in decimal text.

The decimal text of an integer is its digits, with a minus sign if it is negative.  It is made of
digits and that sign only, and it is read back as the integer.

* `mem_decimal` — the characters of a decimal text;
* `readInteger_decimal` — a decimal text is read back.
-/
import TraceDebugger.Text.Numeral

namespace TraceDebugger.Text

/-- The decimal text of an integer. -/
def decimal (n : Int) : List Char := (toString n).toList

theorem decimal_natCast (n : Nat) : decimal n = Nat.toDigits 10 n := by
  rw [decimal]
  show (String.ofList (Nat.toDigits 10 n)).toList = _
  rw [String.toList_ofList]

theorem decimal_negSucc (n : Nat) : decimal (.negSucc n) = '-' :: Nat.toDigits 10 (n + 1) := by
  rw [decimal]
  show ("-" ++ String.ofList (Nat.toDigits 10 (n + 1))).toList = _
  rw [String.toList_append]
  exact congrArg ('-' :: ·) String.toList_ofList

/-! ### Digits -/

theorem toNat_of_isDigit {c : Char} (h : c.isDigit = true) : 48 ≤ c.toNat ∧ c.toNat ≤ 57 := by
  simpa [Char.isDigit, UInt32.le_iff_toNat_le] using h

theorem hexValue?_of_isDigit {c : Char} (h : c.isDigit = true) :
    hexValue? c = some (c.toNat - 48) := by
  rw [hexValue?, if_pos]
  simpa [Char.isDigit, Char.le_def] using h

/-- Digits are read as the number that they write. -/
theorem readDigits_of_isDigit {digits : List Char} (h : ∀ c ∈ digits, c.isDigit = true)
    (value : Nat) (afterDigit : Bool) (hne : digits ≠ [] ∨ afterDigit = true) :
    readDigits 10 value afterDigit digits = some (Nat.ofDigitChars 10 digits value) := by
  induction digits generalizing value afterDigit with
  | nil =>
    obtain rfl := hne.resolve_left (· rfl)
    rfl
  | cons c rest ih =>
    have hc := h c List.mem_cons_self
    have hbounds := toNat_of_isDigit hc
    have hmark : c ≠ '_' := by rintro rfl; cases hc
    rw [readDigits, if_neg hmark, hexValue?_of_isDigit hc, Nat.ofDigitChars_cons]
    dsimp only
    rw [if_pos (by omega), ih (fun d hd => h d (List.mem_cons_of_mem _ hd)) _ _ (.inr rfl),
      Nat.mul_comm]
    rfl

/-! ### Decimal texts -/

/-- A decimal text is made of digits and the minus sign. -/
theorem mem_decimal {n : Int} {c : Char} (h : c ∈ decimal n) : c.isDigit = true ∨ c = '-' := by
  cases n with
  | ofNat n =>
    rw [Int.ofNat_eq_natCast, decimal_natCast] at h
    exact .inl (Nat.isDigit_of_mem_toDigits (by decide) (by decide) h)
  | negSucc n =>
    rw [decimal_negSucc] at h
    rcases List.mem_cons.mp h with rfl | h
    · exact .inr rfl
    · exact .inl (Nat.isDigit_of_mem_toDigits (by decide) (by decide) h)

theorem decimal_ne_nil (n : Int) : decimal n ≠ [] := by
  cases n with
  | ofNat n =>
    rw [Int.ofNat_eq_natCast, decimal_natCast]
    exact Nat.toDigits_ne_nil
  | negSucc n =>
    rw [decimal_negSucc]
    exact List.cons_ne_nil _ _

theorem readUnsigned_digits (n : Nat) : readUnsigned 10 (Nat.toDigits 10 n) = some n := by
  have hread : readUnsigned 10 (Nat.toDigits 10 n) = readDigits 10 0 false (Nat.toDigits 10 n) := by
    simp [readUnsigned]
  rw [hread, readDigits_of_isDigit
    (fun c hc => Nat.isDigit_of_mem_toDigits (by decide) (by decide) hc) _ _
    (.inl Nat.toDigits_ne_nil), Nat.ofDigitChars_toDigits (by decide) (by decide)]

theorem readSigned_decimal (n : Int) : readSigned 10 (decimal n) = some n := by
  cases n with
  | ofNat n =>
    have hdigits : ∀ c ∈ Nat.toDigits 10 n, c.isDigit = true := fun c hc =>
      Nat.isDigit_of_mem_toDigits (by decide) (by decide) hc
    -- the first character is a digit and no sign
    have hsign : readSigned 10 (Nat.toDigits 10 n)
        = (readUnsigned 10 (Nat.toDigits 10 n)).map fun n => (n : Int) := by
      rw [readSigned]
      · intro rest heq
        have hc := hdigits '-' (heq ▸ List.mem_cons_self)
        cases hc
      · intro rest heq
        have hc := hdigits '+' (heq ▸ List.mem_cons_self)
        cases hc
    rw [Int.ofNat_eq_natCast, decimal_natCast, hsign, readUnsigned_digits]
    rfl
  | negSucc n =>
    rw [decimal_negSucc, readSigned, readUnsigned_digits]
    rfl

/-- The reader takes digits and the minus sign as they are. -/
theorem plainNumeralChar_of_mem_decimal {n : Int} {c : Char} (h : c ∈ decimal n) :
    plainNumeralChar c = c ∧ isByteBlank c = false := by
  rcases mem_decimal h with hc | rfl
  · obtain ⟨hle, hle'⟩ := toNat_of_isDigit hc
    refine ⟨if_pos (by omega), ?_⟩
    rw [isByteBlank, Bool.or_eq_false_iff]
    refine ⟨decide_eq_false (by rintro rfl; cases hc), ?_⟩
    rw [Bool.and_eq_false_iff]
    refine .inr (decide_eq_false fun hcr => ?_)
    have hlt : c.toNat ≤ '\r'.toNat := hcr
    have hcr : '\r'.toNat = 13 := rfl
    omega
  · decide

/-- **A decimal text is read back.** -/
theorem readInteger_decimal (n : Int) : readInteger 10 (decimal n) = some n := by
  have hplain : (decimal n).map plainNumeralChar = decimal n := by
    rw [List.map_congr_left fun c hc => (plainNumeralChar_of_mem_decimal hc).1]
    exact List.map_id' _
  rw [readInteger, hplain, trimBy_eq_self fun c hc => (plainNumeralChar_of_mem_decimal hc).2,
    readSigned_decimal]

end TraceDebugger.Text
