/-
Writing YAML documents.

A text stands plain if it can be read back so, else between single quotes, and between double quotes
if it holds a character that needs an escape.  A line that has grown beyond its width goes on after
a space on the next line.
-/
import TraceDebugger.Yaml.Plain
import TraceDebugger.Yaml.Text

namespace TraceDebugger.Yaml

open Text

/-- The column after which a line goes on on the next one. -/
def lineWidth : Nat := 80

/-- The indicators that begin no plain text in block form, wherever they stand first. -/
def leadingIndicators : List Char := "#,[]\x7b\x7d&*!|>'\"%@\x60".toList

def isPlainAscii (c : Char) : Bool := ' ' ≤ c && c ≤ '~'

/-- The characters that make a line end in a text. -/
def endsTextLine (c : Char) : Bool :=
  c = '\n' || c = '\u0085' || c = '\u2028' || c = '\u2029'

/-- A colon before a separator, or a number sign after one, given the character before. -/
def hasInnerIndicator (before : Char) : List Char → Bool
  | [] => false
  | c :: rest =>
    (c = ':' && endsHere rest) || (c = '#' && isSeparator before) || hasInnerIndicator c rest

/-- Something in the text would not be taken as a part of a plain text. -/
def hasIndicator : List Char → Bool
  | [] => false
  | c :: rest =>
    leadingIndicators.contains c
      || ((c = '?' || c = ':' || c = '-') && endsHere rest)
      || hasInnerIndicator c rest

def beginsMarked (cs : List Char) : Bool :=
  ['-', '-', '-'].isPrefixOf cs || ['.', '.', '.'].isPrefixOf cs

/-- Two neighbours in the text are of these classes. -/
def hasNeighbours (p q : Char → Bool) : List Char → Bool
  | a :: b :: rest => (p a && q b) || hasNeighbours p q (b :: rest)
  | _ => false

/-- A character that is no printed ASCII character and no line feed stands in the text. -/
def needsEscape (cs : List Char) : Bool := cs.any fun c => !(c = '\n' || isPlainAscii c)

def hasSpaceBeforeBreak (cs : List Char) : Bool := hasNeighbours (· == ' ') endsTextLine cs

def hasSpaceAfterBreak (cs : List Char) : Bool := hasNeighbours endsTextLine (· == ' ') cs

/-- The class of characters holds at the beginning or at the end. -/
def atAnEnd (p : Char → Bool) (cs : List Char) : Bool := cs.head?.any p || cs.getLast?.any p

/-- The text can be written without quotes and be read back as a text. -/
def canBePlain (cs : List Char) : Bool :=
  (ofPlain (String.ofList cs)).toOption == some (.str (String.ofList cs))
    && !atAnEnd (fun c => c = ' ' || endsTextLine c) cs && !needsEscape cs
    && !cs.any endsTextLine && !hasIndicator cs && !beginsMarked cs

def canBeSingle (cs : List Char) : Bool :=
  !hasSpaceAfterBreak cs && !hasSpaceBeforeBreak cs && !needsEscape cs

structure Written where
  reversed : List Char := []
  column : Nat
deriving Repr, Inhabited

namespace Written

def put (chars : List Char) (written : Written) : Written :=
  { reversed := chars.reverse ++ written.reversed, column := written.column + chars.length }

def newLine (indent : Nat) (written : Written) : Written :=
  { reversed := List.replicate indent ' ' ++ '\n' :: written.reversed, column := indent }

/-- Cut the line between double quotes; a space that comes next is marked as a part of the text. -/
def cutLine (indent : Nat) (next : Option Char) (written : Written) : Written :=
  let cut := (written.put ['\\']).newLine indent
  if next = some ' ' then cut.put ['\\'] else cut

end Written

/-- The runs of spaces and of other characters in a text. -/
def runs : List Char → List (List Char)
  | [] => []
  | c :: rest =>
    match runs rest with
    | (d :: run) :: more =>
      if (c == ' ') == (d == ' ') then (c :: d :: run) :: more else [c] :: (d :: run) :: more
    | more => [c] :: more

/-- Write the runs of a plain text; a single space on a full line becomes a line end. -/
def writePlain (indent : Nat) (written : Written) : List (List Char) → Written
  | [] => written
  | run :: rest =>
    if run = [' '] && lineWidth < written.column then
      writePlain indent (written.newLine indent) rest
    else writePlain indent (written.put run) rest

/-- Write a text between single quotes after its opening one: spaces, line ends and other characters
by runs. -/
def writeSingle (indent : Nat) (written : Written) (first : Bool) : List (List Char) → Written
  | [] => written
  | run :: rest =>
    if run = [' '] && lineWidth < written.column && !first && !rest.isEmpty then
      writeSingle indent (written.newLine indent) false rest
    else if run.head?.any endsTextLine then
      let bare : Written := { written with
        reversed := List.replicate (run.length + if run.head? = some '\n' then 1 else 0) '\n'
          ++ written.reversed }
      writeSingle indent { reversed := List.replicate indent ' ' ++ bare.reversed, column := indent }
        false rest
    else
      writeSingle indent (written.put (run.flatMap fun c => if c = '\'' then ['\'', '\''] else [c]))
        false rest

/-- The runs of spaces, of line ends and of other characters in a text. -/
def textRuns : List Char → List (List Char)
  | [] => []
  | c :: rest =>
    match textRuns rest with
    | (d :: run) :: more =>
      if (c == ' ') == (d == ' ') && endsTextLine c == endsTextLine d then
        (c :: d :: run) :: more
      else [c] :: (d :: run) :: more
    | more => [c] :: more

/-- The letters of the escapes that are used in writing. -/
def writtenEscapes : List (Char × Char) :=
  [('\x00', '0'), ('\x07', 'a'), ('\x08', 'b'), ('\t', 't'), ('\n', 'n'), ('\x0b', 'v'),
    ('\x0c', 'f'), ('\r', 'r'), ('\x1b', 'e'), ('"', '"'), ('\\', '\\'), ('\u0085', 'N'),
    ('\u00a0', '_'), ('\u2028', 'L'), ('\u2029', 'P')]

def capitalCode (width : Nat) (c : Char) : List Char :=
  (hexPadded width c.toNat).map Char.toUpper

/-- A character between double quotes by an escape, if it needs one. -/
def escaped? (c : Char) : Option (List Char) :=
  match writtenEscapes.find? fun entry => entry.1 = c with
  | some (_, letter) => some ['\\', letter]
  | none =>
    if isPlainAscii c then none
    else if c.toNat < 256 then some ('\\' :: 'x' :: capitalCode 2 c)
    else if c.toNat < 65536 then some ('\\' :: 'u' :: capitalCode 4 c)
    else some ('\\' :: 'U' :: capitalCode 8 c)

/-- Write a text between double quotes after its opening one.  `held` are the characters, last
first, that have not been written; `started` says that a character stands before.  A line that would
grow too long is cut by a backslash at a space or after an escape. -/
def writeDouble (indent : Nat) (written : Written) (held : List Char) (started : Bool) :
    List Char → Written
  | [] => written.put held.reverse
  | c :: rest =>
    match escaped? c with
    | some escape =>
      let now := (written.put held.reverse).put escape
      if started && !rest.isEmpty && lineWidth + 1 < now.column then
        writeDouble indent (now.cutLine indent rest.head?) [] true rest
      else writeDouble indent now [] true rest
    | none =>
      if started && !rest.isEmpty && (c = ' ' || held.isEmpty)
          && lineWidth < written.column + held.length then
        writeDouble indent ((written.put held.reverse).cutLine indent (some c)) [c] true rest
      else writeDouble indent written (c :: held) true rest

/-- A text as it stands in a document after a column, to go on at an indentation. -/
def writeText (column indent : Nat) (text : String) : String :=
  let cs := text.toList
  let written :=
    if canBePlain cs then writePlain indent { column } (runs cs)
    else if canBeSingle cs then
      (writeSingle indent { reversed := ['\''], column := column + 1 } true (textRuns cs)).put ['\'']
    else (writeDouble indent { reversed := ['"'], column := column + 1 } [] false cs).put ['"']
  String.ofList written.reversed.reverse

def Simple.write (column indent : Nat) : Simple → String
  | null => "null"
  | bool true => "true"
  | bool false => "false"
  | int n => toString n
  | str s => writeText column indent s

def entryLine (name : String) (value : Simple) : String :=
  "  " ++ name ++ ": " ++ value.write (name.length + 4) 4 ++ "\n"

/-- The section as the text of a document.  The names are written as they are. -/
def Section.write (part : Section) : String :=
  if part.entries.isEmpty then part.name ++ ": \x7b\x7d\n"
  else part.name ++ ":\n" ++ String.join (part.entries.map fun (name, value) => entryLine name value)

end TraceDebugger.Yaml
