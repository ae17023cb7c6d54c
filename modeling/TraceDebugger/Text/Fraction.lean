/-
Numbers with a decimal point.

A number read from text stands for the nearest binary fraction of 53 significant bits, or for an
infinity if it is nearest to none below `2 ^ 1024`.  Its text is the shortest decimal that stands
for the same binary fraction, nearest to it among those of that length; it is positional while the
exponent lies between -4 and 15.
-/

namespace TraceDebugger.Text

/-- A decimal number `± digits / 10 ^ places`. -/
structure Fraction where
  negative : Bool
  digits : Nat
  places : Nat
deriving Repr, DecidableEq, Inhabited

namespace Fraction

/-- A nonnegative binary fraction `mantissa * 2 ^ exponent`. -/
structure Binary where
  mantissa : Nat
  exponent : Int
deriving Repr, DecidableEq

/-- Divide and round to the nearest whole number, a half to the even neighbour. -/
def roundDiv (num den : Nat) : Nat :=
  let q := num / den
  let r := num % den
  if 2 * r > den || (2 * r == den && q % 2 == 1) then q + 1 else q

/-- `num / den` scaled by a power of `base`, as a pair of naturals. -/
def scaled (base : Nat) (num den : Nat) (shift : Int) : Nat × Nat :=
  if 0 ≤ shift then (num * Nat.pow base shift.toNat, den)
  else (num, den * Nat.pow base (-shift).toNat)

/-- The nearest binary fraction with 53 significant bits (fewer near zero). -/
def nearest (num den : Nat) : Binary :=
  if num = 0 then ⟨0, 0⟩
  else
    let guess : Int := (Nat.log2 num : Int) - (Nat.log2 den : Int) - 52
    let (n, d) := scaled 2 num den (-guess)
    let exponent := max (-1074) (if n < d * Nat.pow 2 52 then guess - 1 else guess)
    let (n, d) := scaled 2 num den (-exponent)
    let m := roundDiv n d
    if m = Nat.pow 2 53 then ⟨Nat.pow 2 52, exponent + 1⟩ else ⟨m, exponent⟩

def Binary.ratio (b : Binary) : Nat × Nat := scaled 2 b.mantissa 1 b.exponent

def magnitude (x : Fraction) : Binary := nearest x.digits (Nat.pow 10 x.places)

/-- The number stands for an infinity: it lies at or above the middle of the largest binary fraction
and `2 ^ 1024`. -/
@[irreducible] def isInfinite (x : Fraction) : Bool :=
  decide ((Nat.pow 2 54 - 1) * Nat.pow 2 970 * Nat.pow 10 x.places ≤ x.digits)

/-- The number cut towards zero, unless it is infinite. -/
def truncate (x : Fraction) : Int :=
  let (n, d) := x.magnitude.ratio
  if x.negative then -((n / d : Nat) : Int) else ((n / d : Nat) : Int)

/-- The number as a rational one, unless it is infinite. -/
def value (x : Fraction) : Rat :=
  let (n, d) := x.magnitude.ratio
  if x.negative then -mkRat n d else mkRat n d

def isZero (x : Fraction) : Bool := x.magnitude.mantissa == 0

/-- The whole number that the number equals, if there is one. -/
def whole? (x : Fraction) : Option Int :=
  let (n, d) := x.magnitude.ratio
  if !x.isInfinite && n % d = 0 then some x.truncate else none

/-- The same number in decimal digits that its value alone decides. -/
def canonical (x : Fraction) : Fraction :=
  let exponent := x.magnitude.exponent
  if x.isInfinite then ⟨x.negative, Nat.pow 2 1024, 0⟩
  else if 0 ≤ exponent then ⟨x.negative, x.magnitude.mantissa * Nat.pow 2 exponent.toNat, 0⟩
  else ⟨x.negative, x.magnitude.mantissa * Nat.pow 5 exponent.natAbs, exponent.natAbs⟩

def leadingExponent (num den : Nat) : Int :=
  let guess : Int := ((Nat.toDigits 10 num).length : Int) - ((Nat.toDigits 10 den).length : Int)
  let (n, d) := scaled 10 num den (-guess)
  if n < d then guess - 1 else guess

/-- A decimal of `count` digits that stands for the binary fraction, with the exponent of its last
digit. -/
def digitsOfLength (b : Binary) (count : Nat) : Option (Nat × Int) :=
  let (num, den) := b.ratio
  let unit : Int := leadingExponent num den - ((count : Int) - 1)
  let (n, d) := scaled 10 num den (-unit)
  let below := n / d
  let hits := fun (c : Nat) =>
    let (cn, cd) := scaled 10 c 1 unit
    decide (nearest cn cd = b)
  match hits below, hits (below + 1) with
  | true, true => some (roundDiv n d, unit)
  | true, false => some (below, unit)
  | false, true => some (below + 1, unit)
  | false, false => none

/-- The shortest digits that stand for the binary fraction; seventeen always do. -/
def shortest (b : Binary) : Nat × Int :=
  ((List.range 17).findSome? fun i => digitsOfLength b (i + 1)).getD (0, 0)

/-- Digits `d₁d₂…` with the exponent of the last one, as text. -/
def digitsText (value : Nat) (unit : Int) : List Char :=
  let all := Nat.toDigits 10 value
  let leading : Int := unit + (all.length : Int) - 1
  let significant := (all.reverse.dropWhile (· == '0')).reverse
  if -4 ≤ leading ∧ leading < 16 then
    if leading < 0 then
      '0' :: '.' :: List.replicate (-leading - 1).toNat '0' ++ significant
    else
      let count := leading.toNat + 1
      let front := significant.take count
      let back := significant.drop count
      front ++ List.replicate (count - front.length) '0' ++ '.' ::
        (if back.isEmpty then ['0'] else back)
  else
    let mantissa := match significant with
      | [] => ['0']
      | [d] => [d]
      | d :: rest => d :: '.' :: rest
    let size := Nat.toDigits 10 leading.natAbs
    mantissa ++ ['e', if leading < 0 then '-' else '+'] ++
      List.replicate (2 - size.length) '0' ++ size

def text (x : Fraction) : String :=
  let b := x.magnitude
  let body :=
    if x.isInfinite then "inf".toList
    else if b.mantissa = 0 then "0.0".toList
    else
      let (value, unit) := shortest b
      digitsText value unit
  String.ofList (if x.negative then '-' :: body else body)

end Fraction

end TraceDebugger.Text
