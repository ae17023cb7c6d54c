/-
Reading YAML documents.

A document is one value: a scalar, a mapping or a sequence, in block form by indentation or in flow
form between brackets.  First the outline of the document is read, in which the scalars stand as
they are written, and then the value of the outline is formed.  Keys are scalars; the last value of
a key counts.  Of the tags only that of texts is known.  Anchors, explicit keys and texts in block
form are not read.
-/
import TraceDebugger.Yaml.Plain
import TraceDebugger.Yaml.Text

namespace TraceDebugger.Yaml

/-- A scalar as it is written. -/
structure Leaf where
  text : String
  /-- It stands without quotes and without a tag, and its form decides what it is. -/
  plain : Bool
deriving Repr, Inhabited

/-- A value as it is written. -/
inductive Outline where
  | leaf (leaf : Leaf)
  | list (items : List Outline)
  | map (entries : List (Leaf × Outline))
deriving Repr, Inhabited

/-- A value that was read, and the place after it. -/
abbrev Read := Option (Outline × Mark)

/-- The tag that says that a scalar is a text. -/
def textTag : List Char := "!!str".toList

/-- A tag that may stand here: whether it is there, and the place after it. -/
def readTag (mark : Mark) : Option (Bool × Mark) :=
  if mark.rest.head? = some '!' then
    if textTag.isPrefixOf mark.rest && endsHere (mark.rest.drop textTag.length) then
      some (true, mark.pass textTag.length)
    else none
  else some (false, mark)

structure LeafWord where
  leaf : Leaf
  after : Mark
  /-- It stands on one line together with the place after it. -/
  oneLine : Bool

def leafOf (plain : Bool) (word : Word) : LeafWord where
  leaf := ⟨String.ofList word.chars, plain⟩
  after := word.after
  oneLine := word.oneLine && !word.after.fresh

def readLeaf (inFlow isText : Bool) (least : Int) (mark : Mark) : Option LeafWord :=
  match mark.rest.head? with
  | some '\'' => (quotedText '\'' mark).map (leafOf false)
  | some '"' => (quotedText '"' mark).map (leafOf false)
  | _ =>
    if beginsPlain inFlow mark.rest then some (leafOf (!isText) (plainText inFlow least mark))
    else none

def emptyLeaf (isText : Bool) : Leaf := ⟨"", !isText⟩

/-- A value of which nothing is written. -/
def Outline.empty : Outline := .leaf (emptyLeaf false)

/-! ### Flow form -/

/-- A scalar in flow form stands here, or nothing but its tag. -/
def readFlowLeaf (isText : Bool) (mark : Mark) : Option (Leaf × Mark) :=
  match mark.rest.head? with
  | some c =>
    if isText && (c = ',' || c = ']' || c = '\x7d' || c = ':') then some (emptyLeaf isText, mark)
    else (readLeaf true isText 0 mark).map fun word => (word.leaf, word.after)
  | none => none

/-- The key that a value stands for. -/
def keyOf : Outline → Option Leaf
  | .leaf key => some key
  | _ => none

mutual

def flowValue : Nat → Mark → Read
  | 0, _ => none
  | fuel + 1, mark =>
    let mark := mark.next
    match mark.rest.head? with
    | some '[' => flowItems fuel [] (mark.pass 1)
    | some '\x7b' => flowEntries fuel [] (mark.pass 1)
    | _ => do
      let (isText, mark) ← readTag mark
      let (leaf, after) ← readFlowLeaf isText mark.next
      return (.leaf leaf, after)

/-- The items of a sequence in flow form, after those that were read. -/
def flowItems : Nat → List Outline → Mark → Read
  | 0, _, _ => none
  | fuel + 1, items, mark => do
    let mark := mark.next
    if mark.rest.head? = some ']' then return (.list items, mark.pass 1)
    let (value, after) ← flowValue fuel mark
    let (item, after) ← flowPair fuel value after.next
    let after := after.next
    match after.rest.head? with
    | some ',' => flowItems fuel (items ++ [item]) (after.pass 1)
    | some ']' => return (.list (items ++ [item]), after.pass 1)
    | _ => none

/-- An item of a sequence in flow form, which is a mapping of one entry if a colon follows. -/
def flowPair : Nat → Outline → Mark → Read
  | 0, _, _ => none
  | fuel + 1, value, mark =>
    if mark.rest.head? = some ':' then do
      let key ← keyOf value
      let (value, after) ← flowEntryValue fuel (mark.pass 1).next
      return (.map [(key, value)], after)
    else some (value, mark)

def flowEntryValue : Nat → Mark → Read
  | 0, _ => none
  | fuel + 1, mark =>
    match mark.rest.head? with
    | some ',' => some (.empty, mark)
    | some ']' => some (.empty, mark)
    | some '\x7d' => some (.empty, mark)
    | _ => flowValue fuel mark

def flowEntries : Nat → List (Leaf × Outline) → Mark → Read
  | 0, _, _ => none
  | fuel + 1, entries, mark => do
    let mark := mark.next
    if mark.rest.head? = some '\x7d' then return (.map entries, mark.pass 1)
    let (name, after) ← flowValue fuel mark
    let key ← keyOf name
    let after := after.next
    let (value, after) ←
      if after.rest.head? = some ':' then flowEntryValue fuel (after.pass 1).next
      else some (.empty, after)
    let after := after.next
    match after.rest.head? with
    | some ',' => flowEntries fuel (entries ++ [(key, value)]) (after.pass 1)
    | some '\x7d' => return (.map (entries ++ [(key, value)]), after.pass 1)
    | _ => none

end

/-! ### Block form -/

/-- A key of a block mapping stands here with its colon: the key and the place after the colon. -/
def readKey (mark : Mark) : Option (Leaf × Mark) := do
  let (isText, place) ← readTag mark
  let word ← readLeaf false isText (mark.column + 1) place.passSpaces
  if word.oneLine && word.after.passSpaces.atColon then
    return (word.leaf, word.after.passSpaces.pass 1)
  else none

mutual

/-- A value in block form that is part of something on a column.  `indentless` says that a sequence
may stand on that column itself. -/
def blockValue : Nat → Int → Bool → Mark → Read
  | 0, _, _, _ => none
  | fuel + 1, parent, indentless, mark =>
    let start := mark.next
    let deeper := parent < start.column
    if start.atDocumentEnd then some (.empty, start)
    else if start.fresh && indentless && (start.column : Int) = parent && start.atItem then
      blockItems fuel start.column [] start
    else if start.fresh && !deeper then some (.empty, start)
    else if start.atItem then
      if start.fresh then blockItems fuel start.column [] start else none
    else match start.rest.head? with
      | some '[' => flowItems fuel [] (start.pass 1)
      | some '\x7b' => flowEntries fuel [] (start.pass 1)
      | _ =>
        match if start.fresh then readKey start else none with
        | some _ => blockEntries fuel start.column [] start
        | none => blockLeaf fuel parent start

/-- A scalar that is no key, perhaps after a tag. -/
def blockLeaf : Nat → Int → Mark → Read
  | 0, _, _ => none
  | _ + 1, parent, start => do
    let (isText, place) ← readTag start
    let mark := if isText then place.next else place
    if isText && (mark.atDocumentEnd || (mark.fresh && (mark.column : Int) ≤ parent)) then
      return (.leaf (emptyLeaf isText), mark)
    let word ← readLeaf false isText (parent + 1) mark
    if word.after.passSpaces.atColon then none
    else return (.leaf word.leaf, word.after)

/-- The items of a sequence on a column, after those that were read. -/
def blockItems : Nat → Nat → List Outline → Mark → Read
  | 0, _, _, _ => none
  | fuel + 1, column, items, mark => do
    let begun := mark.pass 1
    let (item, after) ← blockValue fuel column false { begun with fresh := true }
    let after := after.next
    if !after.atDocumentEnd && after.fresh && after.column = column && after.atItem then
      blockItems fuel column (items ++ [item]) after
    else if after.atDocumentEnd || (after.fresh && after.column ≤ column) then
      return (.list (items ++ [item]), after)
    else none

def blockEntries : Nat → Nat → List (Leaf × Outline) → Mark → Read
  | 0, _, _, _ => none
  | fuel + 1, column, entries, mark => do
    let (key, after) ← readKey mark
    let (value, after) ← blockValue fuel column true after
    let after := after.next
    let entries := entries ++ [(key, value)]
    if after.atDocumentEnd || (after.fresh && after.column < column) then
      return (.map entries, after)
    else if after.fresh && after.column = column then blockEntries fuel column entries after
    else none

end

/-! ### Documents -/

/-- The character may stand in a document. -/
def isAllowed (c : Char) : Bool :=
  c = '\t' || c = '\n' || c = '\r' || (' ' ≤ c && c ≤ '~') || c = '\u0085'
    || ('\u00a0' ≤ c && c.toNat ≤ 0xfffd) || (0x10000 ≤ c.toNat)

/-- The line ends of a text as line feeds. -/
def plainBreaks : List Char → List Char
  | '\r' :: '\n' :: rest => '\n' :: plainBreaks rest
  | '\r' :: rest => '\n' :: plainBreaks rest
  | c :: rest => c :: plainBreaks rest
  | [] => []

/-- A text without the mark of its byte order. -/
def dropByteOrderMark : List Char → List Char
  | '\ufeff' :: rest => rest
  | cs => cs

def endsDocument (mark : Mark) : Bool :=
  let mark := mark.next
  mark.atEnd || (mark.atMarker ['.', '.', '.'] && (mark.pass 3).next.atEnd)

def outline? (text : String) : Option Outline :=
  let chars := plainBreaks text.toList
  if !chars.all isAllowed then none
  else
    let start : Mark := Mark.next { rest := dropByteOrderMark chars }
    let start := if start.atMarker ['-', '-', '-'] then start.pass 3 else start
    match blockValue (2 * chars.length + 4) (-1) false start with
    | some (outline, after) => if endsDocument after then some outline else none
    | none => none

/-! ### Values -/

def Leaf.value (leaf : Leaf) : Except Flaw Scalar :=
  if leaf.plain then ofPlain leaf.text else .ok (.str leaf.text)

mutual

def Outline.value : Outline → Except Flaw Yaml
  | .leaf leaf => leaf.value.map .scalar
  | .list items => (itemValues items).map .list
  | .map entries => (entryValues entries).map fun entries => .map (ofEntries entries)

def itemValues : List Outline → Except Flaw (List Yaml)
  | [] => .ok []
  | item :: rest => do
    let value ← item.value
    let values ← itemValues rest
    return value :: values

def entryValues : List (Leaf × Outline) → Except Flaw (List (Scalar × Yaml))
  | [] => .ok []
  | (leaf, outline) :: rest => do
    let key ← leaf.value
    let value ← outline.value
    let entries ← entryValues rest
    return (key, value) :: entries

end

/-- The value of a document. -/
def parse (text : String) : Except Flaw Yaml :=
  match outline? text with
  | some outline => outline.value
  | none => .error .malformed

end TraceDebugger.Yaml
