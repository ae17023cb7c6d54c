/-
Entries of a source map: which span of which source an instruction comes from, and whether it jumps
into or out of a function.
-/

namespace TraceDebugger

/-- What a jump instruction does to the depth of function calls. -/
inductive Jump where
  | into
  | out
  | regular
  /-- A mark that means nothing. -/
  | other (mark : String)
deriving DecidableEq, Repr, Inhabited

namespace Jump

def mark : Jump → String
  | into => "i"
  | out => "o"
  | regular => "-"
  | other mark => mark

def ofMark (mark : String) : Jump :=
  if mark = "i" then into else if mark = "o" then out else if mark = "-" then regular
  else other mark

/-- The mark is one of the three that mean something. -/
def known : Jump → Bool
  | other _ => false
  | _ => true

/-- By how much the jump changes the depth of function calls. -/
def delta : Jump → Int
  | into => 1
  | out => -1
  | _ => 0

theorem ofMark_mark {jump : Jump} (h : jump.known = true) : ofMark jump.mark = jump := by
  cases jump <;> simp_all [ofMark, mark, known]

end Jump

/-- One entry of a source map. -/
structure MapEntry where
  offset : Int
  length : Int
  fileIndex : Int
  jump : Jump
  modifierDepth : Int
deriving DecidableEq, Repr, Inhabited

namespace MapEntry

/-- The entry points into a source. -/
def isValid (entry : MapEntry) : Bool := 0 ≤ entry.fileIndex && 0 ≤ entry.offset

/-- What stands before the first entry of a source map. -/
def initial : MapEntry := ⟨0, 0, -1, .regular, 0⟩

end MapEntry

end TraceDebugger
