/-
The state variables of contracts.

The scope of a contract holds the mutable state variables of the contracts that it inherits from,
most basic first, and then its own.
-/
import TraceDebugger.SyntaxTree.Basic

namespace TraceDebugger

structure ScopeVariable where
  name : Json
  id : Json
deriving Repr, Inhabited

/-- The state variables that a contract can see. -/
structure Scope where
  contract : NodeId
  members : List ScopeVariable
deriving Repr, Inhabited

def ScopeVariable.toJson (v : ScopeVariable) : Json := .obj [("name", v.name), ("id", v.id)]

namespace SyntaxTree

def isText (text : String) : Json → Bool
  | .str s => s == text
  | _ => false

/-- The declaration is that of a mutable state variable. -/
def declaresState (child : Json) : Except Fault Bool := do
  let nodeType ← child.lookupOrNull "nodeType"
  let member := fun name missing => (child.get? name).getD missing
  return isText "VariableDeclaration" nodeType && (member "stateVariable" (.bool false)).truthy
    && isText "mutable" (member "mutability" (.str "mutable"))
    && !(member "constant" (.bool false)).truthy

/-- The state variables among some declarations. -/
def stateVariables : List Json → Except Fault (List ScopeVariable)
  | [] => .ok []
  | child :: rest => do
    if ← declaresState child then
      let id ← child.require "id"
      let others ← stateVariables rest
      return { name := (child.get? "name").getD .null, id } :: others
    else stateVariables rest

/-- The state variables that a contract declares itself. -/
def ownVariables (contract : Node) : Except Fault (List ScopeVariable) := do
  let children ← match Json.member? "nodes" contract.members with
    | some nodes => nodes.items
    | none => .ok []
  stateVariables children

def contracts (tree : SyntaxTree) : List (NodeId × Node) :=
  tree.byId.filter fun entry => entry.2.kind = .contract

/-- The contracts that a contract inherits from, most basic first, and then itself. -/
def linearization (id : NodeId) (contract : Node) : Except Fault (List NodeId) :=
  match Json.member? "linearizedBaseContracts" contract.members with
  | some bases =>
    if bases.truthy then do (← bases.itemsReversed).mapM NodeId.ofJson else .ok [id]
  | none => .ok [id]

def valueOf? {α β : Type} [DecidableEq α] (key : α) (table : List (α × β)) : Option β :=
  (table.find? fun entry => entry.1 = key).map (·.2)

def scopes (tree : SyntaxTree) : Except Fault (List (NodeId × Scope)) := do
  let own ← tree.contracts.mapM fun (id, contract) => do return (id, ← ownVariables contract)
  tree.contracts.mapM fun (id, contract) => do
    let bases ← linearization id contract
    let members := bases.flatMap fun base => (valueOf? base own).getD []
    return (id, { contract := id, members })

end SyntaxTree

end TraceDebugger
