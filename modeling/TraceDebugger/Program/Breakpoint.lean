/-
Breakpoints.

A breakpoint names a call site, by the address of a contract or by creation code, and a place in its
source, by a line or by a node of the syntax tree.  Without an address and code every call site is
meant; without a line and a node no place is.
-/
import TraceDebugger.SourceMap.Range
import TraceDebugger.State.CallStack
import TraceDebugger.SyntaxTree.Node
import TraceDebugger.Text.Lowercase

namespace TraceDebugger

/-- A call site and a place in its source. -/
structure Breakpoint where
  address : Option String := none
  binary : Option String := none
  line : Option Int := none
  node : Option NodeId := none
deriving DecidableEq, Repr, Inhabited

namespace Breakpoint

/-- Two texts are given and are the same in lower case. -/
def sameText : Option String → Option String → Bool
  | some a, some b => Text.lower a == Text.lower b
  | _, _ => false

/-- A frame is at the call site. -/
def atCallSite (breakpoint : Breakpoint) (frame : Frame) : Bool :=
  (breakpoint.address.isNone && breakpoint.binary.isNone)
    || sameText breakpoint.address frame.address
    || sameText breakpoint.binary frame.binary

def onLine (breakpoint : Breakpoint) : Option SourceRange → Bool
  | some range => breakpoint.line == some (range.first.line : Int)
  | none => false

def onNode (breakpoint : Breakpoint) : Option NodeId → Bool
  | some id => breakpoint.node == some id
  | none => false

/-- The breakpoint is hit in a frame at a range and a node. -/
def isHit (breakpoint : Breakpoint) (frame : Frame) (range : Option SourceRange)
    (node : Option NodeId) : Bool :=
  (breakpoint.onLine range || breakpoint.onNode node) && breakpoint.atCallSite frame

def anyHit (breakpoints : List Breakpoint) (frame : Frame) (range : Option SourceRange)
    (node : Option NodeId) : Bool :=
  breakpoints.any fun breakpoint => breakpoint.isHit frame range node

end Breakpoint

end TraceDebugger
