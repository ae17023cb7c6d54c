/-
Syntax trees as the list of their nodes in pre-order.

An object is a node if it has a type, an identity and a source attribute.  A node is found by its
path, by its identity (the last one of that identity) or by a span of the source (`find?`): among
the nodes that enclose the span a shortest one, of these a deepest one, and of these the first.
-/
import TraceDebugger.SyntaxTree.Node

namespace TraceDebugger

namespace SyntaxTree

/-- The node that an object is, if it is one. -/
def nodeAt? (path : Path) (members : List (String × Json)) : Except Fault (Option Node) :=
  match Json.member? "nodeType" members, Json.member? "id" members,
      Json.member? "src" members with
  | some nodeType, some id, some src => do
    let span ← match src with
      | .str text => SourceMap.parseSpan text
      | value => .error (.unfit (.noMember value.kindName "split"))
    let id ← NodeId.ofJson id
    return some { id, nodeType, span, path, members }
  | _, _, _ => .ok none

mutual

/-- The nodes in a value at a path, in pre-order. -/
def walk (path : Path) : Json → Except Fault (List Node)
  | .obj members => do
    let here ← nodeAt? path members
    let below ← walkMembers path members
    return here.toList ++ below
  | .arr items => walkItems path 0 items
  | _ => .ok []

def walkMembers (path : Path) : List (String × Json) → Except Fault (List Node)
  | [] => .ok []
  | (name, value) :: rest => do
    let first ← walk (path ++ [.member name]) value
    let others ← walkMembers path rest
    return first ++ others

/-- The nodes in the items of a list, the first item having that index. -/
def walkItems (path : Path) (index : Nat) : List Json → Except Fault (List Node)
  | [] => .ok []
  | value :: rest => do
    let first ← walk (path ++ [.item index]) value
    let others ← walkItems path (index + 1) rest
    return first ++ others

end

end SyntaxTree

structure SyntaxTree where
  /-- What the tree is known by. -/
  index : Int
  /-- The nodes in pre-order. -/
  nodes : List Node
deriving Repr, Inhabited

namespace SyntaxTree

def ofJson (index : Int) (root : Json) : Except Fault SyntaxTree :=
  match root.get? "nodeType" with
  | none => .error .notATree
  | some _ => (walk [] root).map fun nodes => { index, nodes }

/-- Put an entry into a table: an identity that is there keeps its place. -/
def setEntry {α β : Type} [DecidableEq α] (key : α) (value : β) : List (α × β) → List (α × β)
  | [] => [(key, value)]
  | (k, old) :: rest => if k = key then (k, value) :: rest else (k, old) :: setEntry key value rest

/-- The nodes by identity: the last node of each, in the order of first occurrence. -/
def byId (tree : SyntaxTree) : List (NodeId × Node) :=
  tree.nodes.foldl (fun table node => setEntry node.id node table) []

def node? (tree : SyntaxTree) (id : NodeId) : Option Node :=
  tree.nodes.reverse.find? fun node => node.id = id

def node (tree : SyntaxTree) (id : NodeId) : Except Fault Node :=
  match tree.node? id with
  | some node => .ok node
  | none => .error (.nodeNotFound s!"id {id.display}")

def resolve (tree : SyntaxTree) (path : Path) : Except Fault Node :=
  match tree.nodes.find? fun node => node.path = path with
  | some node => .ok node
  | none => .error (.nodeNotFound path.text)

/-- The second of two enclosing nodes is preferred to the first. -/
def narrower (best node : Node) : Bool :=
  node.span.length < best.span.length ||
    (node.span.length == best.span.length && best.path.length < node.path.length)

/-- The best enclosing node after one more node has been seen. -/
def better (start length : Int) (best : Option Node) (node : Node) : Option Node :=
  if node.encloses start length then
    match best with
    | none => some node
    | some b => if narrower b node then some node else some b
  else best

/-- The node for a span of the source. -/
def find? (tree : SyntaxTree) (start length : Int) : Option Node :=
  tree.nodes.foldl (better start length) none

def definitions (tree : SyntaxTree) : List (NodeId × Json) :=
  tree.byId.map fun (id, node) => (id, node.raw)

end SyntaxTree

end TraceDebugger
