/-
Decimal digits of all scripts and their values.
-/
import TraceDebugger.Text.DigitTable

namespace TraceDebugger.Text

/-- The value of a decimal digit of any script. -/
def decimalValue? (c : Char) : Option Nat :=
  zeroDigits.findSome? fun start =>
    if start ≤ c.toNat ∧ c.toNat < start + 10 then some (c.toNat - start) else none

theorem decimalValue?_lt {c : Char} {d : Nat} (h : decimalValue? c = some d) : d < 10 := by
  obtain ⟨_, -, hz⟩ := List.exists_of_findSome?_eq_some h
  split at hz
  · simp only [Option.some.injEq] at hz; omega
  · simp at hz

/-- The Western digit of a value below ten. -/
def westernDigit (d : Nat) : Char := Char.ofNat (48 + d)

end TraceDebugger.Text
