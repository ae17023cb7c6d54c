/-
Lines and columns of a source text, and ranges of it.

Offsets and lengths count characters.  Lines and columns count from one; an offset outside the text
is taken as the nearest one inside.  The end of a range is the position of its last character.
-/

namespace TraceDebugger

structure LineColumn where
  line : Nat
  column : Nat
deriving DecidableEq, Repr, Inhabited

/-- A span of source text with the positions of its first and last characters. -/
structure SourceRange where
  start : Int
  length : Int
  first : LineColumn
  last : LineColumn
  fileIndex : Int := 0
deriving DecidableEq, Repr, Inhabited

namespace SourceRange

/-- The offset after the last character. -/
def stop (range : SourceRange) : Int := range.start + range.length

def sameAs (a b : SourceRange) : Bool := a.start == b.start && a.length == b.length

/-- The second range begins and ends inside the first one. -/
def contains (outer inner : SourceRange) : Bool :=
  outer.start ≤ inner.start && inner.stop ≤ outer.stop

def isMultiline (range : SourceRange) : Bool := range.first.line != range.last.line

/-- Two ranges that may be missing are the same. -/
def same : Option SourceRange → Option SourceRange → Bool
  | none, none => true
  | some a, some b => a.sameAs b
  | _, _ => false

/-- Two ranges begin on the same line; a missing range is on no line. -/
def sameLine : Option SourceRange → Option SourceRange → Bool
  | some a, some b => a.first.line == b.first.line
  | _, _ => false

/-- A range lies inside another one; a missing range neither contains nor is contained. -/
def within : Option SourceRange → Option SourceRange → Bool
  | some outer, some inner => outer.contains inner
  | _, _ => false

end SourceRange

/-- The length of a source text and the offsets at which its lines start. -/
structure LineIndex where
  size : Nat
  starts : List Nat
deriving DecidableEq, Repr, Inhabited

namespace LineIndex

/-- The offsets after the line feeds of a text that begins at an offset. -/
def startsAfter (offset : Nat) : List Char → List Nat
  | [] => []
  | c :: rest =>
    if c = '\n' then (offset + 1) :: startsAfter (offset + 1) rest
    else startsAfter (offset + 1) rest

def ofSource (source : String) : LineIndex :=
  let cs := source.toList
  { size := cs.length, starts := 0 :: startsAfter 0 cs }

/-- The offset inside the text that is nearest to an offset. -/
def clamp (index : LineIndex) (offset : Int) : Nat := min offset.toNat index.size

def position (index : LineIndex) (offset : Int) : LineColumn :=
  let o := index.clamp offset
  let before := index.starts.takeWhile (· ≤ o)
  { line := before.length, column := o - before.getLastD 0 + 1 }

def range (index : LineIndex) (start length fileIndex : Int) : SourceRange :=
  let final := if 0 < length then start + length - 1 else start
  { start, length, first := index.position start, last := index.position final, fileIndex }

end LineIndex

end TraceDebugger
