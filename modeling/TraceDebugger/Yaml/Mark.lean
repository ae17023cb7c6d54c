/-
A place in the text of a document, and what can be skipped there.

Beside the rest of the text it has the column and says whether a new mapping or sequence may begin:
that is so at the start of a line.
-/

namespace TraceDebugger.Yaml

structure Mark where
  rest : List Char
  column : Nat := 0
  /-- A mapping or a sequence may begin here. -/
  fresh : Bool := true
deriving Repr, Inhabited

/-- The character ends a line. -/
def isBreak (c : Char) : Bool :=
  c = '\n' || c = '\r' || c = '\u0085' || c = '\u2028' || c = '\u2029'

def isSeparator (c : Char) : Bool := c = ' ' || c = '\t' || isBreak c

/-- A separator or the end of the text follows. -/
def endsHere : List Char → Bool
  | [] => true
  | c :: _ => isSeparator c

/-- A line break as it counts inside a text. -/
def breakText (c : Char) : Char := if c = '\u2028' || c = '\u2029' then c else '\n'

namespace Mark

def pass (count : Nat) (mark : Mark) : Mark :=
  { rest := mark.rest.drop count, column := mark.column + count, fresh := false }

def passSpaces (mark : Mark) : Mark :=
  let count := (mark.rest.takeWhile (· == ' ')).length
  { mark with rest := mark.rest.drop count, column := mark.column + count }

/-- Pass spaces, comments and line ends that come next; `column` and `fresh` are those of the place
before the characters. -/
def skipFrom (column : Nat) (fresh : Bool) : List Char → Mark
  | [] => { rest := [], column, fresh }
  | c :: rest =>
    if c = ' ' then skipFrom (column + 1) fresh rest
    else if isBreak c then skipFrom 0 true rest
    else if c = '#' then skipComment rest
    else { rest := c :: rest, column, fresh }
where
  /-- Pass the rest of a comment and what may be skipped after it. -/
  skipComment : List Char → Mark
    | [] => { rest := [], column := 0, fresh := true }
    | c :: rest => if isBreak c then skipFrom 0 true rest else skipComment rest

/-- The next place where something stands. -/
def next (mark : Mark) : Mark := skipFrom mark.column mark.fresh mark.rest

def atEnd (mark : Mark) : Bool := mark.rest.isEmpty

/-- A mark of the document begins here: its first characters, on a line of their own. -/
def atMarker (marker : List Char) (mark : Mark) : Bool :=
  mark.column = 0 && marker.isPrefixOf mark.rest && endsHere (mark.rest.drop marker.length)

def atDocumentEnd (mark : Mark) : Bool :=
  mark.atEnd || mark.atMarker ['-', '-', '-'] || mark.atMarker ['.', '.', '.']

/-- An item of a block sequence begins here. -/
def atItem (mark : Mark) : Bool :=
  match mark.rest with
  | '-' :: rest => endsHere rest
  | _ => false

/-- The colon between a key and a value of a block mapping stands here. -/
def atColon (mark : Mark) : Bool :=
  match mark.rest with
  | ':' :: rest => endsHere rest
  | _ => false

end Mark

end TraceDebugger.Yaml
