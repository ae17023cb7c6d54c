/-
JSON values.

An object is the list of its members in the order in which they were written; a name stands in it
once.  `get?` looks a member up, `truthy` says whether a value counts as set, and `kindName` is the
word that error messages use for the kind of a value.
-/
import TraceDebugger.Text.Fraction

namespace TraceDebugger

open Text (Fraction)

inductive Json where
  | null
  | bool (value : Bool)
  | int (value : Int)
  | fraction (value : Fraction)
  | str (value : String)
  | arr (items : List Json)
  | obj (members : List (String × Json))
deriving Inhabited, Repr

namespace Json

/-- The first member of that name. -/
def member? (name : String) : List (String × Json) → Option Json
  | [] => none
  | (key, value) :: rest => if key = name then some value else member? name rest

/-- A member of an object; other values have none. -/
def get? : Json → String → Option Json
  | obj members, name => member? name members
  | _, _ => none

def kindName : Json → String
  | null => "NoneType"
  | bool _ => "bool"
  | int _ => "int"
  | fraction _ => "float"
  | str _ => "str"
  | arr _ => "list"
  | obj _ => "dict"

/-- The value counts as set: it is not null, false, zero or empty. -/
def truthy : Json → Bool
  | null => false
  | bool b => b
  | int n => n != 0
  | fraction x => !x.isZero
  | str s => s != ""
  | arr items => !items.isEmpty
  | obj members => !members.isEmpty

def text? : Json → Option String
  | str s => some s
  | _ => none

/-- Put a member into an object: a name that is there keeps its place. -/
def setMember (name : String) (value : Json) : List (String × Json) → List (String × Json)
  | [] => [(name, value)]
  | (key, old) :: rest =>
    if key = name then (key, value) :: rest else (key, old) :: setMember name value rest

theorem member?_setMember_self (name : String) (value : Json) (members : List (String × Json)) :
    member? name (setMember name value members) = some value := by
  induction members with
  | nil => simp [setMember, member?]
  | cons m rest ih =>
    obtain ⟨key, old⟩ := m
    by_cases h : key = name <;> simp [setMember, member?, h, ih]

theorem member?_setMember_of_ne {name other : String} (h : other ≠ name) (value : Json)
    (members : List (String × Json)) :
    member? other (setMember name value members) = member? other members := by
  induction members with
  | nil => simp [setMember, member?, h.symm]
  | cons m rest ih =>
    obtain ⟨key, old⟩ := m
    by_cases hk : key = name
    · simp [setMember, member?, hk, h.symm]
    · by_cases ho : key = other
      · simp [setMember, member?, ho, h]
      · simp [setMember, member?, hk, ho, ih]

end Json

end TraceDebugger
