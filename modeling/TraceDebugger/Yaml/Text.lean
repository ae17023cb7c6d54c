/-
Texts in a document: plain ones and those between quotes.

A text may go on over several lines; a single line end between two words counts as a space, and each
further one as itself.  Between double quotes a backslash begins an escape.
-/
import TraceDebugger.Text.Hexadecimal
import TraceDebugger.Yaml.Mark

namespace TraceDebugger.Yaml

/-- A text that was read: its characters, the place after it, and whether it stood on one line. -/
structure Word where
  chars : List Char
  after : Mark
  oneLine : Bool
deriving Repr, Inhabited

/-- What white space between two parts of a text stands for, given the line ends in it: the blanks
themselves if there is none, a space for one, and otherwise all but the first. -/
def foldBreaks (blanks : List Char) : List Char → List Char
  | [] => blanks
  | first :: more =>
    if breakText first = '\n' then
      if more.isEmpty then [' '] else more.map breakText
    else breakText first :: more.map breakText

/-! ### Plain texts -/

/-- The characters that cannot begin a plain text. -/
def indicators : List Char := "-?:,[]\x7b\x7d#&*!|>'\"%@\x60".toList

def beginsPlain (inFlow : Bool) : List Char → Bool
  | [] => false
  | c :: rest =>
    !(isSeparator c || indicators.contains c)
      || (!endsHere rest && (c = '-' || (!inFlow && (c = '?' || c = ':'))))

/-- A character that ends a part of a plain text, given what follows it. -/
def endsPlain (inFlow : Bool) (c : Char) (rest : List Char) : Bool :=
  isSeparator c
    || (c = ':' && (endsHere rest || (inFlow && ",[]\x7b\x7d".toList.contains (rest.headD ' '))))
    || (inFlow && ",?[]\x7b\x7d".toList.contains c)

def plainLength (inFlow : Bool) : List Char → Nat
  | [] => 0
  | c :: rest => if endsPlain inFlow c rest then 0 else plainLength inFlow rest + 1

/-- White space after a part of a plain text: the line ends in it and the place after it.  It ends
before a mark of the document. -/
def plainGap : Nat → List Char → Mark → List Char × Mark
  | 0, breaks, mark => (breaks, mark)
  | fuel + 1, breaks, mark =>
    let spaced := mark.passSpaces
    match spaced.rest with
    | c :: rest =>
      if isBreak c then
        let after : Mark := { rest, column := 0, fresh := true }
        if after.atDocumentEnd then (breaks ++ [c], after) else plainGap fuel (breaks ++ [c]) after
      else (breaks, spaced)
    | [] => (breaks, spaced)

/-- The parts of a plain text after some white space.  `least` is the least column on which it may
go on. -/
def plainFrom (inFlow : Bool) (least : Int) : Nat → Word → List Char → Word
  | 0, word, _ => word
  | fuel + 1, word, gap =>
    let mark := word.after
    let length := plainLength inFlow mark.rest
    if mark.rest.head? = some '#' || length = 0 then word
    else
      let chars := word.chars ++ gap ++ mark.rest.take length
      let ending := mark.pass length
      let (breaks, after) := plainGap ending.rest.length [] ending
      let blanks := ending.rest.take (after.column - ending.column)
      let read : Word := { chars, after, oneLine := word.oneLine }
      if after.rest.length = ending.rest.length || after.atEnd || after.rest.head? = some '#'
          || (!breaks.isEmpty && after.atDocumentEnd)
          || (!inFlow && (after.column : Int) < least) then read
      else
        let next := plainFrom inFlow least fuel { read with oneLine := word.oneLine && breaks.isEmpty }
          (foldBreaks blanks breaks)
        if next.chars.length = chars.length then read else next

def plainText (inFlow : Bool) (least : Int) (mark : Mark) : Word :=
  plainFrom inFlow least (mark.rest.length + 1) { chars := [], after := mark, oneLine := true } []

/-! ### Texts between quotes -/

def simpleEscapes : List (Char × Char) :=
  [('0', '\x00'), ('a', '\x07'), ('b', '\x08'), ('t', '\t'), ('\t', '\t'), ('n', '\n'),
    ('v', '\x0b'), ('f', '\x0c'), ('r', '\r'), ('e', '\x1b'), (' ', ' '), ('"', '"'),
    ('\\', '\\'), ('/', '/'), ('N', '\u0085'), ('_', '\u00a0'), ('L', '\u2028'), ('P', '\u2029')]

/-- How many digits an escape by code point has. -/
def codeDigits? (c : Char) : Option Nat :=
  if c = 'x' then some 2 else if c = 'u' then some 4 else if c = 'U' then some 8 else none

def codePoint? (digits : List Char) : Option Char :=
  (digits.mapM Text.hexValue?).map fun values =>
    Char.ofNat (values.foldl (fun code d => 16 * code + d) 0)

/-- White space between quotes, after a line end: the further line ends and the place after it.
There is none before a mark of the document. -/
def quotedGap : Nat → List Char → Mark → Option (List Char × Mark)
  | 0, _, _ => none
  | fuel + 1, breaks, mark =>
    if mark.atMarker ['-', '-', '-'] || mark.atMarker ['.', '.', '.'] then none
    else
      let count := (mark.rest.takeWhile fun c => c = ' ' || c = '\t').length
      let spaced := mark.pass count
      match spaced.rest with
      | c :: rest =>
        if isBreak c then quotedGap fuel (breaks ++ [c]) { rest, column := 0 }
        else some (breaks, spaced)
      | [] => some (breaks, spaced)

/-- White space between quotes: what it stands for, the place after it, and whether it stood on one
line. -/
def quotedBlank (mark : Mark) : Option (List Char × Mark × Bool) :=
  let blanks := mark.rest.takeWhile fun c => c = ' ' || c = '\t'
  let spaced := mark.pass blanks.length
  match spaced.rest with
  | [] => none
  | c :: rest =>
    if isBreak c then
      (quotedGap (rest.length + 1) [] { rest, column := 0 }).map fun (breaks, after) =>
        (foldBreaks blanks (c :: breaks), { after with fresh := false }, false)
    else some (blanks, spaced, true)

/-- An escape after a backslash: what it stands for, the place after it, and whether it stood on one
line. -/
def escape? (mark : Mark) : Option (List Char × Mark × Bool) :=
  match mark.rest with
  | [] => none
  | c :: rest =>
    match simpleEscapes.find? fun entry => entry.1 = c, codeDigits? c with
    | some (_, value), _ => some ([value], mark.pass 1, true)
    | none, some count =>
      let digits := rest.take count
      if digits.length = count then
        (codePoint? digits).map fun value => ([value], mark.pass (count + 1), true)
      else none
    | none, none =>
      if isBreak c then
        (quotedGap (rest.length + 1) [] { rest, column := 0 }).map fun (breaks, after) =>
          (breaks.map breakText, { after with fresh := false }, false)
      else none

/-- The rest of a text between quotes. -/
def quotedFrom (quote : Char) : Nat → Word → Option Word
  | 0, _ => none
  | fuel + 1, word =>
    let mark := word.after
    let goOn := fun (chars : List Char) (after : Mark) (oneLine : Bool) =>
      quotedFrom quote fuel
        { chars := word.chars ++ chars, after, oneLine := word.oneLine && oneLine }
    match mark.rest with
    | [] => none
    | c :: rest =>
      if c = quote then
        if quote = '\'' && rest.head? = some '\'' then goOn ['\''] (mark.pass 2) true
        else some { word with after := mark.pass 1 }
      else if c = '\\' && quote = '"' then
        match escape? (mark.pass 1) with
        | some (chars, after, oneLine) => goOn chars after oneLine
        | none => none
      else if isSeparator c then
        match quotedBlank mark with
        | some (chars, after, oneLine) => goOn chars after oneLine
        | none => none
      else goOn [c] (mark.pass 1) true

def quotedText (quote : Char) (mark : Mark) : Option Word :=
  quotedFrom quote (mark.rest.length + 1) { chars := [], after := mark.pass 1, oneLine := true }

end TraceDebugger.Yaml
