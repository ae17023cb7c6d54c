/-
Addresses: the low twenty bytes of a word, after `0x`.

An address may be spelled in lower case or with the case of its letters as a checksum: a letter is a
capital where the digit at its place in the hash of the lower-case address is eight or more.
-/
import TraceDebugger.Execution.Keccak
import TraceDebugger.Execution.Word
import TraceDebugger.Fault.Basic

namespace TraceDebugger.Address

open Text

def width : Nat := 40

def lastOf {α : Type} (count : Nat) (xs : List α) : List α := xs.drop (xs.length - count)

def capital (c : Char) : Char := if 'a' ≤ c ∧ c ≤ 'f' then Char.ofNat (c.toNat - 32) else c

/-- Each digit in the case that the digit of the hash at its place asks for. -/
def markCase (digits hash : List Char) : List Char :=
  digits.zipWith (fun c h => if (hexValue? h).any (8 ≤ ·) then capital c else c) hash

def checksumDigits (digits : List Char) : List Char :=
  let small := lowerChars digits
  let hash := bytesHex (Keccak.digest (small.map fun c => UInt8.ofNat c.toNat))
  markCase small hash

/-- The spelling of an address with its checksum; whoever spells refuses what is no address. -/
abbrev Checksum := String → Except Fault String

/-- The checksums of EIP-55. -/
def eip55 : Checksum := fun address =>
  let digits := address.toList.drop 2
  if digits.all isHexDigit then .ok (String.ofList ('0' :: 'x' :: checksumDigits digits))
  else .error (.unfit (.notHexadecimal address))

def digitsOfWord (word : RawWord) : List Char := lastOf width (Word.normalize word).toList

/-- The address in a word, in lower case or with its checksum. -/
def ofWord (checksum : Option Checksum) (word : RawWord) : Except Fault String :=
  let address := String.ofList ('0' :: 'x' :: digitsOfWord word)
  match checksum with
  | none => .ok address
  | some checksum => checksum address

def ofText (checksum : Option Checksum) (word : String) : Except Fault String :=
  ofWord checksum (.value (.str word))

/-- An address for display: the two ends of a long one. -/
def display (short : Bool) : Option String → String
  | none => "<unknown>"
  | some address =>
    let cs := address.toList
    if cs.isEmpty then "<unknown>"
    else if short && 10 < cs.length then
      String.ofList (cs.take 6 ++ "...".toList ++ lastOf 4 cs)
    else address

/-- Values without repetitions, in the order of their first occurrence. -/
def dedupe (values : List String) : List String :=
  (values.foldl (fun seen value => if seen.contains value then seen else value :: seen) []).reverse

end TraceDebugger.Address
