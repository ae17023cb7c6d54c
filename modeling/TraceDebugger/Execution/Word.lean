/-
Stack words in their fixed-width form: 64 lower-case hexadecimal digits without a mark.

A word may be given as a number, as bytes or as text in any case, with or without `0x` and with any
number of leading zeros.  Text that is no number is brought to the same width all the same.
-/
import TraceDebugger.Json.Literal
import TraceDebugger.Text.Hexadecimal
import TraceDebugger.Text.Lowercase

namespace TraceDebugger

open Text

/-- A word as it is given. -/
inductive RawWord where
  | value (json : Json)
  | bytes (content : List UInt8)
deriving Inhabited

namespace Word

def width : Nat := 64

/-- Fill up with zeros to a width, after the sign if there is one. -/
def padZeros (width : Nat) (cs : List Char) : List Char :=
  let fill := List.replicate (width - cs.length) '0'
  match cs with
  | '-' :: rest => '-' :: fill ++ rest
  | '+' :: rest => '+' :: fill ++ rest
  | cs => fill ++ cs

theorem length_padZeros (width : Nat) (cs : List Char) :
    (padZeros width cs).length = max width cs.length := by
  unfold padZeros
  split <;> simp <;> omega

/-- A number in hexadecimal, after a minus sign if it is negative. -/
def ofInt (n : Int) : List Char :=
  padZeros width (if n < 0 then '-' :: hexDigits n.natAbs else hexDigits n.natAbs)

/-- A text without its mark, in lower case. -/
def ofText (cs : List Char) : List Char := padZeros width (lowerChars (dropHexMark cs))

/-- The fixed-width form of a word. -/
def normalize : RawWord → String
  | .value (.int n) => String.ofList (ofInt n)
  | .value (.bool b) => String.ofList (ofInt (if b then 1 else 0))
  | .value json => String.ofList (ofText json.display.toList)
  | .bytes content => String.ofList (ofText (bytesHex content))

def normalizeText (word : String) : String := normalize (.value (.str word))

end Word

end TraceDebugger
