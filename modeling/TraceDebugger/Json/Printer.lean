/-
Writing JSON.

The text is plain ASCII: every other character is escaped by its UTF-16 units.  `compact` puts a
value on one line, `pretty` puts every item and member on a line of its own.
-/
import TraceDebugger.Json.Basic
import TraceDebugger.Text.Hexadecimal

namespace TraceDebugger.Json

open Text

def unitEscape (unit : Nat) : List Char := '\\' :: 'u' :: hexPadded 4 unit

def escapedChar (c : Char) : List Char :=
  if c = '"' then ['\\', '"']
  else if c = '\\' then ['\\', '\\']
  else if c = '\n' then ['\\', 'n']
  else if c = '\r' then ['\\', 'r']
  else if c = '\t' then ['\\', 't']
  else if c.toNat = 8 then ['\\', 'b']
  else if c.toNat = 12 then ['\\', 'f']
  else if 32 ≤ c.toNat && c.toNat < 127 then [c]
  else if c.toNat < 65536 then unitEscape c.toNat
  else
    let rest := c.toNat - 65536
    unitEscape (55296 + rest / 1024) ++ unitEscape (56320 + rest % 1024)

def stringText (s : String) : String :=
  "\"" ++ String.ofList (s.toList.flatMap escapedChar) ++ "\""

/-- How the parts of a list or object are laid out: what stands before the first part, between two
parts and after the last one, at a depth of nesting. -/
structure Layout where
  opening : Nat → String
  between : Nat → String
  closing : Nat → String

def Layout.line : Layout := ⟨fun _ => "", fun _ => ", ", fun _ => ""⟩

def indentation (width depth : Nat) : String :=
  String.ofList ('\n' :: List.replicate (width * depth) ' ')

/-- Every part on a line of its own, indented by `width` for every level. -/
def Layout.indented (width : Nat) : Layout :=
  ⟨fun depth => indentation width (depth + 1), fun depth => "," ++ indentation width (depth + 1),
   fun depth => indentation width depth⟩

/-- The parts of a list or object between its brackets. -/
def bracketed (layout : Layout) (depth : Nat) (left right : String) (parts : List String) :
    String :=
  match parts with
  | [] => left ++ right
  | parts =>
    left ++ layout.opening depth ++ String.intercalate (layout.between depth) parts
      ++ layout.closing depth ++ right

/-- A number with a decimal point; an infinity has a name of its own. -/
def fractionText (x : Fraction) : String :=
  if x.isInfinite then (if x.negative then "-Infinity" else "Infinity") else x.text

mutual

def render (layout : Layout) (depth : Nat) : Json → String
  | null => "null"
  | bool true => "true"
  | bool false => "false"
  | int n => toString n
  | fraction x => fractionText x
  | str s => stringText s
  | arr items => bracketed layout depth "[" "]" (renderItems layout (depth + 1) items)
  | obj members =>
    bracketed layout depth "\x7b" "\x7d" (renderMembers layout (depth + 1) members)

def renderItems (layout : Layout) (depth : Nat) : List Json → List String
  | [] => []
  | item :: rest => render layout depth item :: renderItems layout depth rest

def renderMembers (layout : Layout) (depth : Nat) : List (String × Json) → List String
  | [] => []
  | (name, value) :: rest =>
    (stringText name ++ ": " ++ render layout depth value) :: renderMembers layout depth rest

end

/-- The value on one line. -/
def compact (value : Json) : String := render Layout.line 0 value

/-- The value over several lines, indented by two. -/
def pretty (value : Json) : String := render (Layout.indented 2) 0 value

end TraceDebugger.Json
