/-
Reading integers.

A numeral may be surrounded by white space, may carry a sign, may be written in the decimal digits
of any script, and may have single underscores between its digits.  In base sixteen a `0x` mark is
optional; in base zero the mark (`0x`, `0o`, `0b`) chooses the base, and a decimal numeral other
than zero must not begin with a zero.  A numeral may have any number of digits: the limit of 4300
that an interpreter can be set to is left out.
-/
import TraceDebugger.Text.Blank
import TraceDebugger.Text.DecimalDigit
import TraceDebugger.Text.Hexadecimal

namespace TraceDebugger.Text

/-- A character of a numeral as the reader sees it: digits of other scripts become Western digits,
white space of other scripts becomes a space, and any other character outside ASCII fits nowhere. -/
def plainNumeralChar (c : Char) : Char :=
  if c.toNat < 127 then c
  else if isBlank c then ' '
  else match decimalValue? c with
    | some d => westernDigit d
    | none => '?'

/-- Read digits of a base with single underscores between them.  `afterDigit` says that the last
character read was a digit, so that an underscore may follow or the numeral may end. -/
def readDigits (base : Nat) (value : Nat) (afterDigit : Bool) : List Char → Option Nat
  | [] => if afterDigit then some value else none
  | c :: rest =>
    if c = '_' then
      if afterDigit then readDigits base value false rest else none
    else match hexValue? c with
      | some d => if d < base then readDigits base (value * base + d) true rest else none
      | none => none

def dropMarkUnderscore : List Char → List Char
  | '_' :: rest => rest
  | cs => cs

/-- An unsigned numeral without surrounding white space. -/
def readUnsigned (base : Nat) (cs : List Char) : Option Nat :=
  match base, cs with
  | 16, '0' :: 'x' :: rest => readDigits 16 0 false (dropMarkUnderscore rest)
  | 16, '0' :: 'X' :: rest => readDigits 16 0 false (dropMarkUnderscore rest)
  | 0, '0' :: 'x' :: rest => readDigits 16 0 false (dropMarkUnderscore rest)
  | 0, '0' :: 'X' :: rest => readDigits 16 0 false (dropMarkUnderscore rest)
  | 0, '0' :: 'o' :: rest => readDigits 8 0 false (dropMarkUnderscore rest)
  | 0, '0' :: 'O' :: rest => readDigits 8 0 false (dropMarkUnderscore rest)
  | 0, '0' :: 'b' :: rest => readDigits 2 0 false (dropMarkUnderscore rest)
  | 0, '0' :: 'B' :: rest => readDigits 2 0 false (dropMarkUnderscore rest)
  | 0, '0' :: rest => (readDigits 10 0 false ('0' :: rest)).filter (· == 0)
  | 0, cs => readDigits 10 0 false cs
  | base, cs => readDigits base 0 false cs

def readSigned (base : Nat) : List Char → Option Int
  | '-' :: rest => (readUnsigned base rest).map fun n => -(n : Int)
  | '+' :: rest => (readUnsigned base rest).map fun n => (n : Int)
  | cs => (readUnsigned base cs).map fun n => (n : Int)

/-- Read an integer in base ten or sixteen, or in the base that its mark names (base zero). -/
def readInteger (base : Nat) (cs : List Char) : Option Int :=
  readSigned base (trimBy isByteBlank (cs.map plainNumeralChar))

end TraceDebugger.Text
