/-
The storage layout of state variables.

Value types are packed into slots of 32 bytes in the order of their declarations, from the low end;
a value that does not fit into what is left of a slot begins a new one.  Structs and static arrays
take whole slots, and so do mappings and dynamic arrays, one each.
-/
import TraceDebugger.SyntaxTree.Scope
import TraceDebugger.Text.DecimalDigit

namespace TraceDebugger.Storage

open Text

def slotBytes : Int := 32

/-- The room that a type takes: some bytes of a slot, or whole slots. -/
inductive Extent where
  | packed (bytes : Int)
  | slots (count : Int)
deriving DecidableEq, Repr, Inhabited

/-- Where a variable lives. -/
structure Place where
  slot : Int
  /-- Bytes from the low end of the slot. -/
  offset : Int
  size : Int
deriving DecidableEq, Repr, Inhabited

/-- The places of some variables and the number of slots that they take. -/
structure Allocation where
  places : List (NodeId × Place)
  slotsUsed : Int
deriving DecidableEq, Repr, Inhabited

/-- A layout under way: the current slot and the bytes that are taken of it. -/
structure Cursor where
  places : List (NodeId × Place) := []
  slot : Int := 0
  offset : Int := 0
deriving DecidableEq, Repr, Inhabited

namespace Cursor

/-- Begin a new slot unless the current one is untouched. -/
def nextSlot (cursor : Cursor) : Cursor :=
  if cursor.offset = 0 then cursor else { cursor with slot := cursor.slot + 1, offset := 0 }

def place (cursor : Cursor) (id : NodeId) : Extent → Cursor
  | .slots count =>
    let fresh := cursor.nextSlot
    { places := SyntaxTree.setEntry id ⟨fresh.slot, 0, count * slotBytes⟩ fresh.places
      slot := fresh.slot + count, offset := 0 }
  | .packed bytes =>
    let fresh :=
      if slotBytes < cursor.offset + bytes then
        { cursor with slot := cursor.slot + 1, offset := 0 }
      else cursor
    { places := SyntaxTree.setEntry id ⟨fresh.slot, fresh.offset, bytes⟩ fresh.places
      slot := fresh.slot, offset := fresh.offset + bytes }

def finish (cursor : Cursor) : Allocation :=
  { places := cursor.places
    slotsUsed := if cursor.offset = 0 then cursor.slot else cursor.slot + 1 }

end Cursor

/-- The objects that types may refer to, by identity. -/
abbrev Definitions := List (NodeId × Json)

/-- The definition of an identity; a null one counts as none. -/
def definition? (definitions : Definitions) (id : NodeId) : Option Json :=
  match SyntaxTree.valueOf? id definitions with
  | some .null => none
  | found => found

/-- The value of a text of decimal digits of any script. -/
def decimalNumber? (cs : List Char) : Option Nat :=
  if cs.isEmpty then none
  else cs.foldlM (fun value c => (decimalValue? c).map (10 * value + ·)) 0

def dropFinalNewline (cs : List Char) : List Char :=
  match cs.reverse with
  | '\n' :: rest => rest.reverse
  | _ => cs

/-- The bytes of a sized type: the number of bits or bytes follows its name. -/
def sizedBytes? (cs : List Char) : Option Nat :=
  match dropFinalNewline cs with
  | 'u' :: 'i' :: 'n' :: 't' :: digits => (decimalNumber? digits).map (· / 8)
  | 'i' :: 'n' :: 't' :: digits => (decimalNumber? digits).map (· / 8)
  | 'b' :: 'y' :: 't' :: 'e' :: 's' :: digits => decimalNumber? digits
  | _ => none

def elementaryBytes (name : String) : Except Fault Int :=
  if name = "address" ∨ name = "address payable" then .ok 20
  else if name = "bool" then .ok 1
  else if name = "string" ∨ name = "bytes" ∨ name = "uint" ∨ name = "int" then .ok slotBytes
  else match sizedBytes? name.toList with
    | some bytes => .ok bytes
    | none => .error (.unsupportedElementary name)

def arrayExtent (count : Int) : Extent → Except Fault Extent
  | .slots each => .ok (.slots (count * each))
  | .packed bytes =>
    if bytes = 0 ∨ slotBytes / bytes = 0 then .error (.unfit .divisionByZero)
    else .ok (.slots (-((-count).fdiv (slotBytes / bytes))))

def arrayCount (length : Json) : Except Fault Int := do
  match (← length.lookup "value").getD (.str "0") with
  | .str text => Json.readInt 0 text
  | _ => .error (.unfit .notANumeral)

/-- Give a declaration its room, its extent being found by `extent`.  A declaration that stands
among the definitions is taken from there. -/
def placeDeclaration (definitions : Definitions) (extent : Json → Except Fault Extent)
    (cursor : Cursor) (declared : Json) : Except Fault Cursor := do
  let idValue ← declared.require "id"
  let id ← NodeId.ofJson idValue
  let declaration := (SyntaxTree.valueOf? id definitions).getD declared
  match ← declaration.lookupOrNull "typeName" with
  | .null => .error (.untypedDeclaration idValue.display)
  | typeName => return cursor.place id (← extent typeName)

def layOut (definitions : Definitions) (extent : Json → Except Fault Extent)
    (declarations : List Json) : Except Fault Allocation :=
  (declarations.foldlM (placeDeclaration definitions extent) {}).map Cursor.finish

/-- The extent of a type that is nested and refers at most `depth` deep. -/
def extentWithin (definitions : Definitions) : Nat → Json → Except Fault Extent
  | 0, _ => .error (.unfit .endless)
  | depth + 1, typeName => do
    let nodeType ← typeName.lookupOrNull "nodeType"
    let member := fun name => (typeName.get? name).getD .null
    match nodeType with
    | .str "ElementaryTypeName" =>
      match (typeName.get? "name").getD (.str "") with
      | .str name => return .packed (← elementaryBytes name)
      | value => .error (.unfit (.notMatchable value.kindName))
    | .str "Mapping" => return .slots 1
    | .str "ArrayTypeName" =>
      match member "length" with
      | .null => return .slots 1
      | length => do
        let count ← arrayCount length
        let element ← extentWithin definitions depth (← typeName.require "baseType")
        arrayExtent count element
    | .str "UserDefinedTypeName" => do
      let reference := member "referencedDeclaration"
      let id ← NodeId.ofJson reference
      match definition? definitions id with
      | none => .error (.unresolvedType reference.display)
      | some referenced => do
        match ← referenced.lookupOrNull "nodeType" with
        | .str "ContractDefinition" => return .packed 20
        | .str "EnumDefinition" => return .packed 1
        | .str "UserDefinedValueTypeDefinition" => do
          extentWithin definitions depth (← referenced.require "underlyingType")
        | .str "StructDefinition" => do
          let members ← ((referenced.get? "members").getD (.arr [])).items
          let inner ← layOut definitions (extentWithin definitions depth) members
          return .slots inner.slotsUsed
        | kind => .error (.unsupportedDefinition kind.display)
    | .str "FunctionTypeName" =>
      return .packed (if SyntaxTree.isText "external" (member "visibility") then 24 else 8)
    | other => .error (.unsupportedType other.display)

mutual

/-- The values in a value, itself first. -/
def values : Json → List Json
  | .arr items => .arr items :: valuesOfItems items
  | .obj members => .obj members :: valuesOfMembers members
  | value => [value]

def valuesOfItems : List Json → List Json
  | [] => []
  | item :: rest => values item ++ valuesOfItems rest

def valuesOfMembers : List (String × Json) → List Json
  | [] => []
  | (_, value) :: rest => values value ++ valuesOfMembers rest

end

/-- How deep a type can nest and refer without coming back to itself: on the way there is another
value of the declarations or definitions each time. -/
def depthLimit (definitions : Definitions) (declarations : List Json) : Nat :=
  (valuesOfItems (declarations ++ definitions.map Prod.snd)).length

def extent (definitions : Definitions) (typeName : Json) : Except Fault Extent :=
  extentWithin definitions (depthLimit definitions [typeName]) typeName

def allocate (definitions : Definitions) (declarations : List Json) : Except Fault Allocation :=
  layOut definitions (extentWithin definitions (depthLimit definitions declarations)) declarations

def allocateScope (definitions : Definitions) (scope : Scope) : Except Fault Allocation :=
  allocate definitions (scope.members.map ScopeVariable.toJson)

end TraceDebugger.Storage
