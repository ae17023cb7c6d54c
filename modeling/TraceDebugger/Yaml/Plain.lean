/-
Scalars written without quotes.

What a plain text stands for is decided by its form: null, a switch word, an integer in base two,
eight, ten, sixteen or sixty, a decimal number, an infinity, a date, or else a text.  The words for
merged mappings, for default values and for numbers that are none are not read.
-/
import TraceDebugger.Text.Split
import TraceDebugger.Yaml.Format

namespace TraceDebugger.Yaml

open Text

def nullWords : List String := ["", "~", "null", "Null", "NULL"]

def trueWords : List String :=
  ["yes", "Yes", "YES", "true", "True", "TRUE", "on", "On", "ON"]

def falseWords : List String :=
  ["no", "No", "NO", "false", "False", "FALSE", "off", "Off", "OFF"]

/-- A sign and what follows it: whether it is negative, and the rest. -/
def splitSign : List Char → Bool × List Char
  | '-' :: rest => (true, rest)
  | '+' :: rest => (false, rest)
  | cs => (false, cs)

/-- Every character is a digit below a base or an underscore. -/
def allDigits (base : Nat) (cs : List Char) : Bool :=
  cs.all fun c => c = '_' || (hexValue? c).any (· < base)

/-- The number of some digits in a base, underscores left out. -/
def digitsValue (base : Nat) (cs : List Char) : Nat :=
  (cs.filterMap hexValue?).foldl (fun value d => base * value + d) 0

def hasDigit (cs : List Char) : Bool := cs.any fun c => (hexValue? c).isSome

/-- A decimal numeral that may hold underscores after its first digit. -/
def isDecimal : List Char → Bool
  | c :: rest => c.isDigit && allDigits 10 rest
  | [] => false

/-- A group of a number in base sixty after the first: one or two digits below sixty. -/
def isSixtieth : List Char → Bool
  | [a] => a.isDigit
  | [a, b] => '0' ≤ a && a ≤ '5' && b.isDigit
  | _ => false

def sixtyValue (groups : List (List Char)) : Nat :=
  groups.foldl (fun value group => 60 * value + digitsValue 10 group) 0

def unsigned? : List Char → Option Nat
  | '0' :: 'b' :: rest => if allDigits 2 rest && hasDigit rest then some (digitsValue 2 rest) else none
  | '0' :: 'x' :: rest => if allDigits 16 rest && hasDigit rest then some (digitsValue 16 rest) else none
  | ['0'] => some 0
  | '0' :: rest => if allDigits 8 rest then some (digitsValue 8 rest) else none
  | cs =>
    match splitBy ':' cs with
    | [digits] => if isDecimal digits then some (digitsValue 10 digits) else none
    | first :: groups =>
      if isDecimal first && groups.all isSixtieth then some (sixtyValue (first :: groups)) else none
    | [] => none

def integer? (cs : List Char) : Option Int :=
  let (negative, rest) := splitSign cs
  (unsigned? rest).map fun n => if negative then -(n : Int) else n

/-- The exponent of a number: nothing, or `e` with a sign and digits. -/
def exponent? : List Char → Option Int
  | [] => some 0
  | e :: sign :: digits =>
    if (e = 'e' || e = 'E') && !digits.isEmpty && digits.all Char.isDigit then
      if sign = '-' then some (-(digitsValue 10 digits : Int))
      else if sign = '+' then some (digitsValue 10 digits)
      else none
    else none
  | _ => none

/-- A decimal number of digits before and after the point and an exponent. -/
def decimalNumber (negative : Bool) (whole places : List Char) (exponent : Int) : Fraction :=
  let places := places.filter (· != '_')
  let digits := digitsValue 10 (whole ++ places)
  let shift : Int := (places.length : Int) - exponent
  if 0 ≤ shift then ⟨negative, digits, shift.toNat⟩
  else ⟨negative, digits * Nat.pow 10 shift.natAbs, 0⟩

def isPlace (c : Char) : Bool := c.isDigit || c = '_'

def decimal? (cs : List Char) : Option Fraction :=
  let (negative, rest) := splitSign cs
  let front := rest.takeWhile (· != '.')
  match rest.drop front.length with
  | '.' :: back =>
    let places := back.takeWhile isPlace
    match front with
    | [] =>
      if (places.headD '_').isDigit && rest.length = cs.length then
        (exponent? (back.drop places.length)).map (decimalNumber negative [] places)
      else none
    | front =>
      match splitBy ':' front with
      | [digits] =>
        if isDecimal digits then
          (exponent? (back.drop places.length)).map (decimalNumber negative digits places)
        else none
      | first :: groups =>
        if isDecimal first && groups.all isSixtieth && places.length = back.length then
          let whole := Nat.toDigits 10 (sixtyValue (first :: groups))
          some (decimalNumber negative whole places 0)
        else none
      | [] => none
  | _ => none

def infinity? (cs : List Char) : Option Fraction :=
  let (negative, rest) := splitSign cs
  if [".inf", ".Inf", ".INF"].contains (String.ofList rest) then
    some ⟨negative, Nat.pow 2 1024, 0⟩
  else none

/-- The base of a numeral that names it and then has no digits, only underscores. -/
def hollowBase? (cs : List Char) : Option Nat :=
  match (splitSign cs).2 with
  | '0' :: 'b' :: '_' :: rest => if rest.all (· == '_') then some 2 else none
  | '0' :: 'x' :: '_' :: rest => if rest.all (· == '_') then some 16 else none
  | _ => none

/-! ### Dates -/

/-- At least `least` and at most `most` digits: their number and what follows them. -/
def takeDigits? (least most : Nat) (cs : List Char) : Option (Nat × List Char) :=
  let count := min most (cs.takeWhile Char.isDigit).length
  if least ≤ count then some (digitsValue 10 (cs.take count), cs.drop count) else none

def dropChar? (c : Char) : List Char → Option (List Char)
  | d :: rest => if d = c then some rest else none
  | [] => none

def dropBlanks (cs : List Char) : List Char := cs.dropWhile fun c => c = ' ' || c = '\t'

/-- The offset from universal time at the end of a date, in minutes; there may be none. -/
def zone? (cs : List Char) : Option (Option Int) :=
  if cs.isEmpty then some none
  else match dropBlanks cs with
    | ['Z'] => some (some 0)
    | sign :: rest => do
      let (hours, rest) ← takeDigits? 1 2 rest
      let minutes ← if rest.isEmpty then some 0 else do
        let (minutes, rest) ← takeDigits? 2 2 (← dropChar? ':' rest)
        if rest.isEmpty then some minutes else none
      if sign = '+' then some (some (60 * hours + minutes : Nat))
      else if sign = '-' then some (some (-(60 * hours + minutes : Nat)))
      else none
    | [] => none

/-- A time of day as it is written. -/
structure Clock where
  hour : Nat
  minute : Nat
  second : Nat
  micro : Fin 1000000
  zone : Option Int

/-- A time of day; of the places of a second six are read. -/
def clock? (cs : List Char) : Option Clock := do
  let (hour, rest) ← takeDigits? 1 2 cs
  let (minute, rest) ← takeDigits? 2 2 (← dropChar? ':' rest)
  let (second, rest) ← takeDigits? 2 2 (← dropChar? ':' rest)
  let (places, rest) := match rest with
    | '.' :: rest => (rest.takeWhile Char.isDigit, rest.dropWhile Char.isDigit)
    | rest => ([], rest)
  let micro := digitsValue 10 ((places ++ List.replicate 6 '0').take 6)
  return { hour, minute, second, micro := Fin.ofNat _ micro, zone := ← zone? rest }

def momentOf (year month day : Nat) (clock : Clock) : Except ValueFault Moment := do
  let offset ← clock.zone.mapM Offset.of
  Moment.of year month day clock.hour clock.minute clock.second clock.micro offset

/-- A date, perhaps with a time of day.  Its numbers may be those of no day. -/
def date? (cs : List Char) : Option (Except ValueFault Scalar) := do
  let (year, rest) ← takeDigits? 4 4 cs
  let (month, rest) ← takeDigits? 1 2 (← dropChar? '-' rest)
  let (day, rest) ← takeDigits? 1 2 (← dropChar? '-' rest)
  match rest with
  | [] =>
    -- a day alone has all its digits
    if cs.length = 10 then return (Day.of year month day).map .day else none
  | c :: time =>
    if c = 'T' || c = 't' then return (momentOf year month day (← clock? time)).map .moment
    else if c = ' ' || c = '\t' then
      return (momentOf year month day (← clock? (dropBlanks time))).map .moment
    else none

/-! ### All forms -/

/-- The plain texts that are not read. -/
def reserved : List String := ["=", "<<", ".nan", ".NaN", ".NAN"]

/-- What the form of a plain text makes of it, if it is that of a number or of a date. -/
def ofForm? (cs : List Char) : Option (Except Flaw Scalar) :=
  (integer? cs).map (fun n => .ok (.int n))
    <|> (hollowBase? cs).map (fun base => .error (.unfit (.badInteger "" base)))
    <|> (decimal? cs <|> infinity? cs).map (fun x => .ok (.fraction x))
    <|> (date? cs).map (·.mapError .unfit)

/-- The scalar that a plain text stands for. -/
def ofPlain (text : String) : Except Flaw Scalar :=
  if nullWords.contains text then .ok .null
  else if trueWords.contains text then .ok (.bool true)
  else if falseWords.contains text then .ok (.bool false)
  else if reserved.contains text then .error .malformed
  else (ofForm? text.toList).getD (.ok (.str text))

end TraceDebugger.Yaml
