/-
Decimal numbers on a given number of digits.

The number is rounded to the nearest one, a half to the even neighbour: to some places after the
point (`fixed`), or to some digits after the first one with an exponent (`scientific`).  `general`
takes whichever is shorter and leaves out zeros at the end.  In the full form the point and the
zeros are always there.
-/
import TraceDebugger.Text.Fraction

namespace TraceDebugger.Text.Fraction

/-- A nonnegative number in units of its last place, with so many places. -/
def placed (full : Bool) (value places : Nat) : List Char :=
  let digits := Nat.toDigits 10 value
  let padded := List.replicate (places + 1 - digits.length) '0' ++ digits
  let front := padded.take (padded.length - places)
  if places = 0 && !full then front else front ++ '.' :: padded.drop front.length

def fixed (full : Bool) (places : Nat) (x : Fraction) : List Char :=
  let (num, den) := x.magnitude.ratio
  if x.isInfinite then "inf".toList else placed full (roundDiv (num * Nat.pow 10 places) den) places

/-- The magnitude of the number on some digits after the first one, in units of the last digit, and
its exponent. -/
def significant (places : Nat) (x : Fraction) : Nat × Int :=
  let (num, den) := x.magnitude.ratio
  if num = 0 then (0, 0)
  else
    let exponent := leadingExponent num den
    let (n, d) := scaled 10 num den ((places : Int) - exponent)
    let value := roundDiv n d
    if value = Nat.pow 10 (places + 1) then (Nat.pow 10 places, exponent + 1)
    else (value, exponent)

/-- An exponent with its sign on at least two digits. -/
def exponentText (exponent : Int) : List Char :=
  let digits := Nat.toDigits 10 exponent.natAbs
  'e' :: (if exponent < 0 then '-' else '+') :: List.replicate (2 - digits.length) '0' ++ digits

def scientific (full : Bool) (places : Nat) (x : Fraction) : List Char :=
  let (value, exponent) := x.significant places
  if x.isInfinite then "inf".toList else placed full value places ++ exponentText exponent

/-- A text without the zeros at its end after a point, and without the point if nothing is left
after it. -/
def dropFinalZeros (cs : List Char) : List Char :=
  if cs.contains '.' then
    match cs.reverse.dropWhile (· == '0') with
    | '.' :: rest => rest.reverse
    | rest => rest.reverse
  else cs

/-- The magnitude of the number on at most so many digits, with an exponent if it is small or
large. -/
def general (full : Bool) (digits : Nat) (x : Fraction) : List Char :=
  let digits := max 1 digits
  let shorten := fun (cs : List Char) => if full then cs else dropFinalZeros cs
  let (value, exponent) := x.significant (digits - 1)
  if x.isInfinite then "inf".toList
  else if -4 ≤ exponent ∧ exponent < digits then
    shorten (x.fixed full ((digits : Int) - 1 - exponent).toNat)
  else shorten (placed full value (digits - 1)) ++ exponentText exponent

end TraceDebugger.Text.Fraction
