/-
The text of a value as it stands in messages.

`literal` writes strings between quotes, lists in brackets and mappings in braces; `display` is the
same save that a string stands for itself.
-/
import TraceDebugger.Json.Basic
import TraceDebugger.Text.Quoted

namespace TraceDebugger.Json

open Text

mutual

/-- The value written so that its kind can be told. -/
def literal : Json → String
  | null => "None"
  | bool true => "True"
  | bool false => "False"
  | int n => toString n
  | fraction x => x.text
  | str s => quoted s
  | arr items => "[" ++ String.intercalate ", " (literals items) ++ "]"
  | obj members => "\x7b" ++ String.intercalate ", " (memberLiterals members) ++ "\x7d"

def literals : List Json → List String
  | [] => []
  | item :: rest => literal item :: literals rest

def memberLiterals : List (String × Json) → List String
  | [] => []
  | (name, value) :: rest => (quoted name ++ ": " ++ literal value) :: memberLiterals rest

end

/-- The value as text: a string as it is, any other value as its literal. -/
def display : Json → String
  | str s => s
  | value => literal value

end TraceDebugger.Json
