/-
Where the value of a variable lives: in a slot of the machine's stack, counted from the bottom, or
in storage.
-/
import TraceDebugger.Storage.Layout

namespace TraceDebugger

/-- Where a value lives. -/
inductive Location where
  | stack (index : Int)
  | storage (place : Storage.Place)
deriving DecidableEq, Repr, Inhabited

/-- What a compiled tree is known by among the bindings. -/
abbrev TreeId := Option Int

/-- The variables of a tree and where they live. -/
abbrev Locations := List (NodeId × Location)

namespace Locations

/-- Put entries into a table one after the other; the last one of an identity counts. -/
def update (table extra : Locations) : Locations :=
  extra.foldl (fun table entry => SyntaxTree.setEntry entry.1 entry.2 table) table

def ofEntries (entries : List (NodeId × Location)) : Locations := update [] entries

end Locations

end TraceDebugger
