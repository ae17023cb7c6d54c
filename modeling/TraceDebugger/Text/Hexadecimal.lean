/-
Hexadecimal text: digits, numbers and byte strings.

Bytes are read in pairs of digits with white space allowed between the pairs; a failure is the
position of the first character that does not fit.
-/

namespace TraceDebugger.Text

/-- The value of a hexadecimal digit in either case. -/
def hexValue? (c : Char) : Option Nat :=
  if '0' ≤ c ∧ c ≤ '9' then some (c.toNat - 48)
  else if 'a' ≤ c ∧ c ≤ 'f' then some (c.toNat - 87)
  else if 'A' ≤ c ∧ c ≤ 'F' then some (c.toNat - 55)
  else none

def isHexDigit (c : Char) : Bool := (hexValue? c).isSome

def hexDigit (d : Nat) : Char := Nat.digitChar d

/-- The number in lower-case hexadecimal, without leading zeros; zero is one digit. -/
def hexDigits (n : Nat) : List Char := Nat.toDigits 16 n

/-- The number in hexadecimal on at least `width` digits. -/
def hexPadded (width n : Nat) : List Char :=
  let digits := hexDigits n
  List.replicate (width - digits.length) '0' ++ digits

def byteDigits (b : UInt8) : List Char := [hexDigit (b.toNat / 16), hexDigit (b.toNat % 16)]

def bytesHex (bytes : List UInt8) : List Char := bytes.flatMap byteDigits

/-- White space that may stand between two bytes. -/
def isByteBlank (c : Char) : Bool := c = ' ' || ('\t' ≤ c && c ≤ '\r')

/-- Read bytes from position `pos` on; the failure is the position of the offending character. -/
def readBytesAt (pos : Nat) : List Char → Except Nat (List UInt8)
  | [] => .ok []
  | [c] =>
    if isByteBlank c then .ok []
    else if isHexDigit c then .error (pos + 1)
    else .error pos
  | high :: low :: rest =>
    if isByteBlank high then readBytesAt (pos + 1) (low :: rest)
    else match hexValue? high, hexValue? low with
      | some h, some l => (readBytesAt (pos + 2) rest).map (UInt8.ofNat (16 * h + l) :: ·)
      | some _, none => .error (pos + 1)
      | none, _ => .error pos

/-- Read a byte string.  A character outside ASCII is reported before any other. -/
def readBytes (cs : List Char) : Except Nat (List UInt8) :=
  match cs.findIdx? (fun c => 128 ≤ c.toNat) with
  | some pos => .error pos
  | none => readBytesAt 0 cs

/-- Drop one leading `0x` or `0X`. -/
def dropHexMark : List Char → List Char
  | '0' :: 'x' :: rest => rest
  | '0' :: 'X' :: rest => rest
  | cs => cs

end TraceDebugger.Text
