/-
Documents as texts.

A format reads the value of a text and writes a section of named values as a text.  A text that is
no document is a flaw of the format; a text may also be a document in which a scalar has the form of
a number or of a date and stands for none.
-/
import TraceDebugger.Yaml.Basic

namespace TraceDebugger.Yaml

/-- Why a text has no value. -/
inductive Flaw where
  | malformed
  /-- The text is a document, and a part of it stands for no value. -/
  | unfit (cause : ValueFault)
deriving Repr, Inhabited

/-- The scalars that are written. -/
inductive Simple where
  | null
  | bool (value : Bool)
  | int (value : Int)
  | str (value : String)
deriving DecidableEq, Repr, Inhabited

def Simple.scalar : Simple → Scalar
  | null => .null
  | bool b => .bool b
  | int n => .int n
  | str s => .str s

/-- A name with named values under it. -/
structure Section where
  name : String
  entries : List (String × Simple)
deriving Repr, Inhabited

namespace Section

def mapping (part : Section) : List (Scalar × Yaml) :=
  part.entries.map fun (name, value) => (.str name, .scalar value.scalar)

/-- The document that consists of the section. -/
def document (part : Section) : Yaml := .map [(.str part.name, .map part.mapping)]

end Section

structure Format where
  read : String → Except Flaw Yaml
  write : Section → String

end TraceDebugger.Yaml
