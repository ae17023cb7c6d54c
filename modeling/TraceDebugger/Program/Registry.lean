/-
Compiled programs, found by address or by creation code.

Addresses and codes are compared in lower case.  The first program that was ever added stands in for
an unknown one unless another was chosen for that.
-/
import TraceDebugger.SourceMap.ProgramMap
import TraceDebugger.SyntaxTree.Basic
import TraceDebugger.SyntaxTree.Scope
import TraceDebugger.Text.Lowercase

namespace TraceDebugger

/-- A contract's map of its code and the syntax trees of its sources by file index. -/
structure Program where
  map : ProgramMap
  trees : List (Int × SyntaxTree) := []
deriving Repr, Inhabited

namespace Program

def treeFor (program : Program) : Option SourceRange → Option SyntaxTree
  | some range => SyntaxTree.valueOf? range.fileIndex program.trees
  | none => none

end Program

/-- Programs by address and by creation code. -/
structure Registry (α : Type) where
  byAddress : List (String × α) := []
  byBinary : List (String × α) := []
  /-- What stands in for an unknown program. -/
  fallback : Option α := none
deriving Repr, Inhabited

namespace Registry

variable {α : Type}

/-- The key of a text; nothing is found by an empty one. -/
def key? : Option String → Option String
  | some text => if text = "" then none else some (Text.lower text)
  | none => none

def enter (text : Option String) (value : α) (table : List (String × α)) : List (String × α) :=
  match key? text with
  | some key => SyntaxTree.setEntry key value table
  | none => table

def find? (text : Option String) (table : List (String × α)) : Option α :=
  (key? text).bind fun key => SyntaxTree.valueOf? key table

/-- Add a program under an address and a creation code, either of which may be missing. -/
def add (program : α) (address binary : Option String) (registry : Registry α) : Registry α :=
  { byAddress := enter address program registry.byAddress
    byBinary := enter binary program registry.byBinary
    fallback := registry.fallback.or (some program) }

/-- The program of an address, or else that of a creation code, or else the one that stands in. -/
def lookup (address binary : Option String) (registry : Registry α) : Option α :=
  ((find? address registry.byAddress).or (find? binary registry.byBinary)).or registry.fallback

end Registry

end TraceDebugger
