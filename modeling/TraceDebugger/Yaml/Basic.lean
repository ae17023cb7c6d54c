/-
Values of YAML documents.

A mapping is the list of its entries in the order in which their keys first came; keys are scalars,
and two keys are the same if they are equal as numbers, as instants, or as they are.  Sets and
tuples, which some tags make, and numbers that are none are left out.
-/
import TraceDebugger.Json.Reading
import TraceDebugger.Yaml.Calendar

namespace TraceDebugger

open Text (Fraction)

namespace Yaml

/-- A value without parts. -/
inductive Scalar where
  | null
  | bool (value : Bool)
  | int (value : Int)
  | fraction (value : Fraction)
  | str (value : String)
  | bytes (content : List UInt8)
  | day (value : Day)
  | moment (value : Moment)
deriving DecidableEq, Repr, Inhabited

/-- The characters with the codes of some bytes. -/
def byteChars (content : List UInt8) : List Char := content.map fun b => Char.ofNat b.toNat

namespace Scalar

def kindName : Scalar → String
  | null => Json.null.kindName
  | bool b => (Json.bool b).kindName
  | int n => (Json.int n).kindName
  | fraction x => (Json.fraction x).kindName
  | str s => (Json.str s).kindName
  | bytes _ => "bytes"
  | day _ => "datetime.date"
  | moment _ => "datetime.datetime"

def truthy : Scalar → Bool
  | null => Json.null.truthy
  | bool b => (Json.bool b).truthy
  | int n => (Json.int n).truthy
  | fraction x => (Json.fraction x).truthy
  | str s => (Json.str s).truthy
  | bytes content => !content.isEmpty
  | day _ | moment _ => true

/-- A byte inside quotes. -/
def byteLiteral (quote c : Char) : List Char :=
  if c.toNat < 127 then Text.quotedChar quote c else Text.codeEscape c

/-- The scalar written so that its kind can be told. -/
def literal : Scalar → String
  | null => Json.null.literal
  | bool b => (Json.bool b).literal
  | int n => (Json.int n).literal
  | fraction x => (Json.fraction x).literal
  | str s => (Json.str s).literal
  | bytes content =>
    let quote := Text.quoteFor (byteChars content)
    String.ofList ('b' :: quote :: (byteChars content).flatMap (byteLiteral quote) ++ [quote])
  | day d => d.literal
  | moment m => m.literal

def display : Scalar → String
  | str s => s
  | day d => d.text
  | moment m => m.text
  | value => value.literal

/-- The scalar as an integer: a number is cut towards zero, and a text or a byte string is read in
base ten. -/
def toInt : Scalar → Except Fault Int
  | null => Json.null.toInt
  | bool b => (Json.bool b).toInt
  | int n => (Json.int n).toInt
  | fraction x => (Json.fraction x).toInt
  | str s => (Json.str s).toInt
  | bytes content =>
    match Text.readSigned 10 (Text.trimBy Text.isByteBlank (byteChars content)) with
    | some n => .ok n
    | none => .error (.unfit (.badByteInteger (bytes content).literal))
  | day d => .error (.unfit (.notANumber (day d).kindName))
  | moment m => .error (.unfit (.notANumber (moment m).kindName))

/-- The number that a scalar is. -/
def number? : Scalar → Option Rat
  | bool b => some (if b then 1 else 0)
  | int n => some n
  | fraction x => some x.value
  | _ => none

/-- A number in the form that its value alone decides; other scalars as they are. -/
def canonical : Scalar → Scalar
  | bool b => int (if b then 1 else 0)
  | fraction x => match x.whole? with | some n => int n | none => fraction x.canonical
  | value => value

def instant? : Scalar → Option Int
  | moment m => m.instant?
  | _ => none

/-- Two scalars are the same key. -/
def sameKey (a b : Scalar) : Bool :=
  a.canonical == b.canonical || (a.instant?.isSome && a.instant? == b.instant?)

end Scalar

end Yaml

/-- The value of a YAML document or of a part of it. -/
inductive Yaml where
  | scalar (value : Yaml.Scalar)
  | list (items : List Yaml)
  | map (entries : List (Yaml.Scalar × Yaml))
deriving Repr, Inhabited

namespace Yaml

def null : Yaml := scalar .null

def str (text : String) : Yaml := scalar (.str text)

def kindName : Yaml → String
  | scalar s => s.kindName
  | list _ => "list"
  | map _ => "dict"

/-- The value counts as set: it is not null, false, zero or empty. -/
def truthy : Yaml → Bool
  | scalar s => s.truthy
  | list items => !items.isEmpty
  | map entries => !entries.isEmpty

mutual

def literal : Yaml → String
  | scalar s => s.literal
  | list items => "[" ++ String.intercalate ", " (literals items) ++ "]"
  | map entries => "\x7b" ++ String.intercalate ", " (entryLiterals entries) ++ "\x7d"

def literals : List Yaml → List String
  | [] => []
  | item :: rest => literal item :: literals rest

def entryLiterals : List (Scalar × Yaml) → List String
  | [] => []
  | (key, value) :: rest => (key.literal ++ ": " ++ literal value) :: entryLiterals rest

end

/-- The value as text: a list or a mapping as its literal. -/
def display : Yaml → String
  | scalar s => s.display
  | value => value.literal

def toInt : Yaml → Except Fault Int
  | scalar s => s.toInt
  | value => .error (.unfit (.notANumber value.kindName))

def find? (key : Scalar) : List (Scalar × Yaml) → Option Yaml
  | [] => none
  | (k, value) :: rest => if k.sameKey key then some value else find? key rest

/-- Put an entry into a mapping: a key that is there keeps its place and its spelling. -/
def setKey (key : Scalar) (value : Yaml) : List (Scalar × Yaml) → List (Scalar × Yaml)
  | [] => [(key, value)]
  | (k, old) :: rest =>
    if k.sameKey key then (k, value) :: rest else (k, old) :: setKey key value rest

/-- The mapping of some entries; the last one of a key counts. -/
def ofEntries (entries : List (Scalar × Yaml)) : List (Scalar × Yaml) :=
  entries.foldl (fun table entry => setKey entry.1 entry.2 table) []

mutual

def ofJson : Json → Yaml
  | .null => null
  | .bool b => scalar (.bool b)
  | .int n => scalar (.int n)
  | .fraction x => scalar (.fraction x)
  | .str s => str s
  | .arr items => list (ofItems items)
  | .obj members => map (ofMembers members)

def ofItems : List Json → List Yaml
  | [] => []
  | item :: rest => ofJson item :: ofItems rest

def ofMembers : List (String × Json) → List (Scalar × Yaml)
  | [] => []
  | (name, value) :: rest => (.str name, ofJson value) :: ofMembers rest

end

end Yaml

end TraceDebugger
