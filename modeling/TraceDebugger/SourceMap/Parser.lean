/-
Reading compressed source maps and source attributes.

The entries of a map are separated by semicolons and the fields of an entry by colons; a blank or
missing field repeats that of the entry before.  The first part that is no entry is reported with
its position.  A source attribute is three integers separated by colons.
-/
import TraceDebugger.Json.Reading
import TraceDebugger.SourceMap.Entry
import TraceDebugger.Text.Split

namespace TraceDebugger.SourceMap

open Text

/-- The field at an index, unless it is missing or blank. -/
def field? (fields : List (List Char)) (index : Nat) : Option (List Char) :=
  fields[index]?.filter fun field => !allBlank field

/-- A number at an index, or the number of the entry before. -/
def numberField (fields : List (List Char)) (index : Nat) (previous : Int) : Except Fault Int :=
  match field? fields index with
  | some field => Json.readInt 10 (String.ofList field)
  | none => .ok previous

/-- The jump at an index, or the jump of the entry before. -/
def jumpField (fields : List (List Char)) (index : Nat) (previous : Jump) : Jump :=
  match field? fields index with
  | some field => Jump.ofMark (String.ofList (trim field))
  | none => previous

def entryOfFields (previous : MapEntry) (fields : List (List Char)) : Except Fault MapEntry := do
  let offset ← numberField fields 0 previous.offset
  let length ← numberField fields 1 previous.length
  let fileIndex ← numberField fields 2 previous.fileIndex
  let modifierDepth ← numberField fields 4 previous.modifierDepth
  return { offset, length, fileIndex, jump := jumpField fields 3 previous.jump, modifierDepth }

/-- The entry written in the part at a position. -/
def entryOfPart (position : Nat) (previous : MapEntry) (part : List Char) :
    Except Fault MapEntry :=
  match entryOfFields previous (splitBy ':' part) with
  | .error fault => .error (.malformedEntry position (String.ofList part) fault.message)
  | .ok entry =>
    if entry.jump.known then .ok entry else .error (.unknownJump position entry.jump.mark)

/-- The entries written in the parts from a position on. -/
def entriesOfParts (position : Nat) (previous : MapEntry) :
    List (List Char) → Except Fault (List MapEntry)
  | [] => .ok []
  | part :: parts => do
    let entry ← entryOfPart position previous part
    let entries ← entriesOfParts (position + 1) entry parts
    return entry :: entries

/-- The entries of a source map; the empty text has none. -/
def parse (text : String) : Except Fault (List MapEntry) :=
  if text = "" then .ok [] else entriesOfParts 0 .initial (splitBy ';' text.toList)

structure Span where
  start : Int
  length : Int
  fileIndex : Int
deriving DecidableEq, Repr, Inhabited

def parseSpan (text : String) : Except Fault Span :=
  match (splitBy ':' text.toList).mapM (readInteger 10) with
  | some [start, length, fileIndex] => .ok ⟨start, length, fileIndex⟩
  | _ => .error (.malformedSpan text)

end TraceDebugger.SourceMap
