/-
Nodes of a syntax tree: their identities, kinds, spans and places.

A place is the path of member names and item indices from the root; it is written with a slash
before every part.
-/
import TraceDebugger.SourceMap.Parser

namespace TraceDebugger

/-- What a node is known by.  Numbers are compared by value, however they are written. -/
inductive NodeId where
  | number (value : Int)
  | fraction (value : Text.Fraction)
  | text (value : String)
  | none
deriving DecidableEq, Repr, Inhabited

namespace NodeId

/-- The identity that a value stands for; lists and objects stand for none. -/
def ofJson : Json → Except Fault NodeId
  | .null => .ok none
  | .bool b => .ok (number (if b then 1 else 0))
  | .int n => .ok (number n)
  | .fraction x =>
    .ok (match x.whole? with | some n => number n | Option.none => fraction x.canonical)
  | .str s => .ok (text s)
  | value => .error (.unfit (.notHashable value.kindName))

def toJson : NodeId → Json
  | number n => .int n
  | fraction x => .fraction x
  | text s => .str s
  | none => .null

def display (id : NodeId) : String := id.toJson.display

end NodeId

/-- The kinds of nodes that stepping tells apart. -/
inductive NodeKind where
  | function
  | contract
  | variableDeclaration
  | other
deriving DecidableEq, Repr, Inhabited

namespace NodeKind

def ofJson : Json → NodeKind
  | .str s =>
    if s = "FunctionDefinition" then function
    else if s = "ContractDefinition" then contract
    else if s = "VariableDeclaration" then variableDeclaration
    else other
  | _ => other

end NodeKind

/-- One step on the way from the root of a tree to a node. -/
inductive PathPart where
  | member (name : String)
  | item (index : Int)
deriving DecidableEq, Repr, Inhabited

/-- The way from the root of a tree to a node. -/
abbrev Path := List PathPart

def PathPart.text : PathPart → String
  | member name => name
  | item index => toString index

def Path.text (path : Path) : String := String.join (path.map fun part => "/" ++ part.text)

/-- The value that a path leads to from a value. -/
def Json.follow? : Json → Path → Option Json
  | value, [] => some value
  | .obj members, .member name :: path => (Json.member? name members).bind fun v => v.follow? path
  | .arr items, .item index :: path =>
    if index < 0 then none else items[index.toNat]?.bind fun v => v.follow? path
  | _, _ :: _ => none

structure Node where
  id : NodeId
  nodeType : Json
  span : SourceMap.Span
  path : Path
  /-- The members of the object that the node is. -/
  members : List (String × Json)
deriving Repr, Inhabited

namespace Node

def kind (node : Node) : NodeKind := NodeKind.ofJson node.nodeType

def raw (node : Node) : Json := .obj node.members

def encloses (node : Node) (start length : Int) : Bool :=
  node.span.start ≤ start && start + length ≤ node.span.start + node.span.length

/-- The paths of the declarations in a group of parameters, in order. -/
def parameterPaths (node : Node) (group : String) : Except Fault (List Path) := do
  let declared := match Json.member? group node.members with
    | some value => if value.truthy then value else .obj []
    | none => .obj []
  let count ← match ← declared.lookup "parameters" with
    | some parameters => parameters.size
    | none => .ok 0
  return (List.range count).map fun i =>
    node.path ++ [.member group, .member "parameters", .item i]

end Node

end TraceDebugger
