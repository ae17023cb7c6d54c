/-
Taking values apart: numbers, members, items and keys, with the fault when a value does not fit.
-/
import TraceDebugger.Fault.Basic
import TraceDebugger.Text.Numeral

namespace TraceDebugger.Json

open Text

def readInt (base : Nat) (text : String) : Except Fault Int :=
  match readInteger base text.toList with
  | some n => .ok n
  | none => .error (.unfit (.badInteger text base))

/-- A value as an integer: a number is cut towards zero and a text is read in base ten. -/
def toInt : Json → Except Fault Int
  | int n => .ok n
  | bool b => .ok (if b then 1 else 0)
  | fraction x => if x.isInfinite then .error (.unfit .infinite) else .ok x.truncate
  | str s => readInt 10 s
  | value => .error (.unfit (.notANumber value.kindName))

def require (name : String) : Json → Except Fault Json
  | obj members =>
    match member? name members with
    | some value => .ok value
    | none => .error (.unfit (.missingKey (.str name)))
  | arr _ => .error (.unfit .listIndex)
  | str _ => .error (.unfit .textIndex)
  | value => .error (.unfit (.notSubscriptable value.kindName))

/-- A member that may be missing, of a value that has to be an object. -/
def lookup (name : String) : Json → Except Fault (Option Json)
  | obj members => .ok (member? name members)
  | value => .error (.unfit (.noMember value.kindName "get"))

/-- A member, or null where it is missing, of a value that has to be an object. -/
def lookupOrNull (name : String) (value : Json) : Except Fault Json :=
  (value.lookup name).map (·.getD .null)

/-- What a value yields one by one: items, characters or member names. -/
def items : Json → Except Fault (List Json)
  | arr items => .ok items
  | str s => .ok (s.toList.map fun c => .str c.toString)
  | obj members => .ok (members.map fun m => .str m.1)
  | value => .error (.unfit (.notIterable value.kindName))

def itemsReversed : Json → Except Fault (List Json)
  | arr items => .ok items.reverse
  | str s => .ok (s.toList.reverse.map fun c => .str c.toString)
  | obj members => .ok (members.reverse.map fun m => .str m.1)
  | value => .error (.unfit (.notReversible value.kindName))

def size : Json → Except Fault Nat
  | arr items => .ok items.length
  | str s => .ok s.length
  | obj members => .ok members.length
  | value => .error (.unfit (.noLength value.kindName))

end TraceDebugger.Json
