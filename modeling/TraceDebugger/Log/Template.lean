/-
Message templates.

A directive in a template stands for an argument: a percent sign, perhaps the name of the argument,
flags, a width and a precision, and a letter that says how the argument is written.  Arguments are
taken in order, or by name if they are given by name.
-/
import TraceDebugger.Json.Literal
import TraceDebugger.Fault.Basic
import TraceDebugger.Text.Rounded

namespace TraceDebugger.Template

open Text (Fraction hexDigits hexPadded)

/-- The arguments of a template. -/
inductive Arguments where
  /-- Taken in order. -/
  | ordered (values : List Json)
  /-- Taken by name, or once as a whole. -/
  | named (members : List (String × Json))
deriving Inhabited

def fail {α : Type} (cause : ValueFault) : Except Fault α := .error (.unfit cause)

/-- What is left of the arguments. -/
structure Supply where
  values : List Json
  names : Option (List (String × Json))
deriving Inhabited

def Arguments.supply : Arguments → Supply
  | ordered values => ⟨values, none⟩
  | named members => ⟨[.obj members], some members⟩

def Supply.next (supply : Supply) : Except Fault (Json × Supply) :=
  match supply.values with
  | value :: rest => .ok (value, { supply with values := rest })
  | [] => fail .tooFewArguments

def Supply.byName (name : String) (supply : Supply) : Except Fault Json :=
  match supply.names with
  | none => fail .unnamedArguments
  | some members =>
    match Json.member? name members with
    | some value => .ok value
    | none => fail (.missingKey (.str name))

/-- How an argument is written. -/
structure Style where
  leftAligned : Bool := false
  plus : Bool := false
  /-- A space stands before a number that is not negative. -/
  blank : Bool := false
  /-- The mark of the base stands before a whole number; a decimal number is in its full form. -/
  marked : Bool := false
  /-- A number is filled up with zeros. -/
  zeros : Bool := false
  width : Nat := 0
  precision : Option Nat := none
deriving Repr, Inhabited

def padText (style : Style) (cs : List Char) : List Char :=
  let fill := List.replicate (style.width - cs.length) ' '
  if style.leftAligned then cs ++ fill else fill ++ cs

def writeText (style : Style) (cs : List Char) : List Char :=
  padText style (match style.precision with
    | some count => cs.take count
    | none => cs)

/-- A number from its sign, the mark of its base and its digits. -/
def writeNumber (style : Style) (negative : Bool) (mark digits : List Char) : List Char :=
  let sign := if negative then ['-'] else if style.plus then ['+'] else if style.blank then [' '] else []
  let head := sign ++ mark
  if style.zeros && !style.leftAligned then
    head ++ List.replicate (style.width - head.length - digits.length) '0' ++ digits
  else padText style (head ++ digits)

/-- The digits of a whole number, filled up with zeros to the precision. -/
def writeWhole (style : Style) (negative : Bool) (mark digits : List Char) : List Char :=
  let least := style.precision.getD 0
  writeNumber style negative mark (List.replicate (least - digits.length) '0' ++ digits)

def wholeOf? : Json → Option Int
  | .int n => some n
  | .bool b => some (if b then 1 else 0)
  | _ => none

/-- A value as a decimal number. -/
def decimalOf (value : Json) : Except Fault Fraction :=
  match wholeOf? value, value with
  | some n, _ =>
    let x : Fraction := ⟨n < 0, n.natAbs, 0⟩
    if x.isInfinite then fail .decimalOverflow else .ok x
  | none, .fraction x => .ok x
  | none, value => fail (.notADecimal value.kindName)

/-- A character outside ASCII by an escape. -/
def asciiChar (c : Char) : List Char :=
  if c.toNat < 128 then [c]
  else if c.toNat < 256 then '\\' :: 'x' :: hexPadded 2 c.toNat
  else if c.toNat < 65536 then '\\' :: 'u' :: hexPadded 4 c.toNat
  else '\\' :: 'U' :: hexPadded 8 c.toNat

def characterOf (value : Json) : Except Fault Char :=
  match wholeOf? value, value with
  | some n, _ => if 0 ≤ n ∧ n < 0x110000 then .ok (Char.ofNat n.toNat) else fail .noSuchCharacter
  | none, .str text => match text.toList with
    | [c] => .ok c
    | _ => fail .notACharacter
  | none, _ => fail .notACharacter

def writeDecimalWhole (style : Style) (letter : Char) (value : Json) : Except Fault (List Char) :=
  match wholeOf? value, value with
  | some n, _ => .ok (writeWhole style (n < 0) [] (Nat.toDigits 10 n.natAbs))
  | none, .fraction x =>
    if x.isInfinite then fail .infinite
    else
      let n := x.truncate
      .ok (writeWhole style (n < 0) [] (Nat.toDigits 10 n.natAbs))
  | none, value => fail (.notAReal letter value.kindName)

def writeBased (style : Style) (letter : Char) (base : Nat) (value : Json) :
    Except Fault (List Char) :=
  match wholeOf? value with
  | some n =>
    let mark := if style.marked then ['0', letter] else []
    let digits := Nat.toDigits base n.natAbs
    let digits := if letter = 'X' then digits.map Char.toUpper else digits
    .ok (writeWhole style (n < 0) mark digits)
  | none => fail (.notAnInteger letter value.kindName)

def writeDecimal (style : Style) (letter : Char) (value : Json) : Except Fault (List Char) :=
  (decimalOf value).map fun x =>
    let precision := style.precision.getD 6
    let digits := match letter.toLower with
      | 'f' => x.fixed style.marked precision
      | 'e' => x.scientific style.marked precision
      | _ => x.general style.marked precision
    let digits := if letter.isUpper then digits.map Char.toUpper else digits
    writeNumber style x.negative [] digits

/-- An argument written by the letter of its directive, which stands at an index of the template. -/
def write (style : Style) (letter : Char) (index : Nat) (value : Json) :
    Except Fault (List Char) :=
  match letter with
  | 's' => .ok (writeText style value.display.toList)
  | 'r' => .ok (writeText style value.literal.toList)
  | 'a' => .ok (writeText style (value.literal.toList.flatMap asciiChar))
  | 'c' => (characterOf value).map fun c => padText style [c]
  | 'd' => writeDecimalWhole style letter value
  | 'i' => writeDecimalWhole style letter value
  | 'u' => writeDecimalWhole style letter value
  | 'o' => writeBased style letter 8 value
  | 'x' => writeBased style letter 16 value
  | 'X' => writeBased style letter 16 value
  | letter =>
    if ['e', 'E', 'f', 'F', 'g', 'G'].contains letter then writeDecimal style letter value
    else fail (.unknownDirective letter index)

/-- The template that is still to be read: the characters and the index of the first one. -/
structure Rest where
  chars : List Char
  index : Nat
deriving Repr, Inhabited

def Rest.pass (count : Nat) (rest : Rest) : Rest :=
  { chars := rest.chars.drop count, index := rest.index + count }

/-- The length of a name up to the bracket that closes it, brackets inside it being paired. -/
def nameLength? (depth : Nat) : List Char → Option Nat
  | [] => none
  | c :: rest =>
    if c = ')' then
      if depth = 0 then some 0 else (nameLength? (depth - 1) rest).map (· + 1)
    else if c = '(' then (nameLength? (depth + 1) rest).map (· + 1)
    else (nameLength? depth rest).map (· + 1)

/-- The name of an argument that may stand here: its value becomes the next argument. -/
def readName (rest : Rest) (supply : Supply) : Except Fault (Rest × Supply) :=
  match rest.chars with
  | '(' :: cs =>
    if supply.names.isNone then fail .unnamedArguments
    else match nameLength? 0 cs with
      | none => fail .incompleteName
      | some length => do
        let value ← supply.byName (String.ofList (cs.take length))
        return (rest.pass (length + 2), { supply with values := [value] })
  | _ => .ok (rest, supply)

def readFlags (style : Style) (rest : Rest) : List Char → Style × Rest
  | '-' :: cs => readFlags { style with leftAligned := true } (rest.pass 1) cs
  | '+' :: cs => readFlags { style with plus := true } (rest.pass 1) cs
  | ' ' :: cs => readFlags { style with blank := true } (rest.pass 1) cs
  | '#' :: cs => readFlags { style with marked := true } (rest.pass 1) cs
  | '0' :: cs => readFlags { style with zeros := true } (rest.pass 1) cs
  | _ => (style, rest)

/-- A width or a precision: the word for it and the least number that is too large. -/
structure Count where
  word : String
  limit : Nat

def widthCount : Count := ⟨"width", 0x8000000000000000⟩
def precisionCount : Count := ⟨"precision", 0x80000000⟩

/-- A number that may stand here, or be taken from the arguments. -/
def readCount (kind : Count) (rest : Rest) (supply : Supply) :
    Except Fault (Option Int × Rest × Supply) :=
  match rest.chars with
  | '*' :: _ => do
    let (value, supply) ← supply.next
    match wholeOf? value with
    | some n =>
      if n < kind.limit ∧ -(kind.limit : Int) ≤ n then return (some n, rest.pass 1, supply)
      else fail (.countOverflow kind.word)
    | none => fail .widthNotInteger
  | chars =>
    let digits := chars.takeWhile Char.isDigit
    if digits.isEmpty then .ok (none, rest, supply)
    else
      let value : Nat := digits.foldl (fun value c => 10 * value + (c.toNat - 48)) 0
      if value < kind.limit then .ok (some (value : Int), rest.pass digits.length, supply)
      else fail (.countTooBig kind.word)

def readWidth (style : Style) (rest : Rest) (supply : Supply) :
    Except Fault (Style × Rest × Supply) := do
  let (count, rest, supply) ← readCount widthCount rest supply
  match count with
  | none => return (style, rest, supply)
  | some n =>
    let leftAligned := style.leftAligned || n < 0
    return ({ style with width := n.natAbs, leftAligned }, rest, supply)

def readPrecision (style : Style) (rest : Rest) (supply : Supply) :
    Except Fault (Style × Rest × Supply) := do
  match rest.chars with
  | '.' :: _ =>
    let (count, rest, supply) ← readCount precisionCount (rest.pass 1) supply
    return ({ style with precision := some ((count.getD 0).toNat) }, rest, supply)
  | _ => return (style, rest, supply)

/-- Pass a letter for the size of a number, which means nothing. -/
def passSize (rest : Rest) : Rest :=
  match rest.chars with
  | c :: _ => if c = 'h' || c = 'l' || c = 'L' then rest.pass 1 else rest
  | [] => rest

/-- A directive after its percent sign: its text, and what is left of the template and of the
arguments. -/
def readDirective (rest : Rest) (supply : Supply) :
    Except Fault (List Char × Rest × Supply) := do
  if rest.chars.head? = some '%' then return (['%'], rest.pass 1, supply)
  let (rest, supply) ← readName rest supply
  let (style, rest) := readFlags {} rest rest.chars
  let (style, rest, supply) ← readWidth style rest supply
  let (style, rest, supply) ← readPrecision style rest supply
  let rest := passSize rest
  match rest.chars with
  | [] => fail .incompleteDirective
  | letter :: _ =>
    let (value, supply) ← supply.next
    return (← write style letter rest.index value, rest.pass 1, supply)

/-- Fill in the rest of a template, with at most so many characters left. -/
def fillFrom : Nat → Rest → Supply → Except Fault (List Char × Supply)
  | 0, _, supply => .ok ([], supply)
  | fuel + 1, rest, supply =>
    match rest.chars with
    | [] => .ok ([], supply)
    | c :: _ => do
      let (here, rest, supply) ←
        if c = '%' then readDirective (rest.pass 1) supply else .ok ([c], rest.pass 1, supply)
      let (more, supply) ← fillFrom fuel rest supply
      return (here ++ more, supply)

/-- Fill arguments into a template.  All arguments that are given in order have to be used. -/
def fill (template : String) (arguments : Arguments) : Except Fault String := do
  let chars := template.toList
  let (text, supply) ← fillFrom (chars.length + 1) ⟨chars, 0⟩ arguments.supply
  if supply.names.isNone && !supply.values.isEmpty then fail .tooManyArguments
  else return String.ofList text

end TraceDebugger.Template
