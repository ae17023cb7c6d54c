/-
The hash function Keccak-256.

The state is five by five lanes of 64 bits, indexed by column and row.  A message is padded to whole
blocks of 136 bytes, each block is mixed into the state, and the digest is the first 32 bytes.
-/

namespace TraceDebugger.Keccak

/-- Five by five lanes, column by column within each row. -/
abbrev State := Array UInt64

/-- The lane of a column and a row, both taken modulo five. -/
def lane (s : State) (x y : Nat) : UInt64 := s.getD (x % 5 + 5 * (y % 5)) 0

def tabulate (f : Nat → Nat → UInt64) : State :=
  (Array.range 25).map fun i => f (i % 5) (i / 5)

def turn (w : UInt64) (count : Nat) : UInt64 :=
  if count % 64 = 0 then w
  else (w <<< UInt64.ofNat (count % 64)) ||| (w >>> UInt64.ofNat (64 - count % 64))

/-- How far each lane is turned. -/
def turns : Array Nat :=
  #[0, 1, 62, 28, 27, 36, 44, 6, 55, 20, 3, 10, 43, 25, 39, 41, 45, 15, 21, 8, 18, 2, 61, 56, 14]

def roundConstants : List UInt64 :=
  [0x0000000000000001, 0x0000000000008082, 0x800000000000808a, 0x8000000080008000,
   0x000000000000808b, 0x0000000080000001, 0x8000000080008081, 0x8000000000008009,
   0x000000000000008a, 0x0000000000000088, 0x0000000080008009, 0x000000008000000a,
   0x000000008000808b, 0x800000000000008b, 0x8000000000008089, 0x8000000000008003,
   0x8000000000008002, 0x8000000000000080, 0x000000000000800a, 0x800000008000000a,
   0x8000000080008081, 0x8000000000008080, 0x0000000080000001, 0x8000000080008008]

/-- The parity of a column. -/
def parity (s : State) (x : Nat) : UInt64 :=
  lane s x 0 ^^^ lane s x 1 ^^^ lane s x 2 ^^^ lane s x 3 ^^^ lane s x 4

/-- Mix the parities of the two neighbouring columns into each lane. -/
def spread (s : State) : State :=
  tabulate fun x y => lane s x y ^^^ parity s (x + 4) ^^^ turn (parity s (x + 1)) 1

/-- Turn the lanes and move them about. -/
def shuffle (s : State) : State :=
  tabulate fun x y =>
    let column := x + 3 * y
    turn (lane s column x) (turns.getD (column % 5 + 5 * (x % 5)) 0)

/-- Combine each lane with the two after it in its row. -/
def combine (s : State) : State :=
  tabulate fun x y => lane s x y ^^^ ((~~~ lane s (x + 1) y) &&& lane s (x + 2) y)

def round (s : State) (constant : UInt64) : State :=
  let s := combine (shuffle (spread s))
  s.setIfInBounds 0 (lane s 0 0 ^^^ constant)

def permute (s : State) : State := roundConstants.foldl round s

def rate : Nat := 136

/-- The message padded to whole blocks. -/
def pad (message : List UInt8) : List UInt8 :=
  let free := rate - message.length % rate
  if free = 1 then message ++ [0x81]
  else message ++ 0x01 :: List.replicate (free - 2) 0x00 ++ [0x80]

/-- Eight bytes as a lane, lowest first. -/
def laneOfBytes (bytes : List UInt8) : UInt64 :=
  bytes.foldr (fun b w => (w <<< 8) ||| b.toUInt64) 0

/-- The bytes of a lane, lowest first. -/
def bytesOfLane (w : UInt64) : List UInt8 :=
  (List.range 8).map fun i => (w >>> UInt64.ofNat (8 * i)).toUInt8

/-- Mix one block into the state. -/
def absorb (s : State) (block : List UInt8) : State :=
  permute (tabulate fun x y =>
    let i := x + 5 * y
    if i < 17 then lane s x y ^^^ laneOfBytes ((block.drop (8 * i)).take 8) else lane s x y)

def absorbBlocks : Nat → State → List UInt8 → State
  | 0, s, _ => s
  | count + 1, s, bytes => absorbBlocks count (absorb s (bytes.take rate)) (bytes.drop rate)

/-- The digest of a message, 32 bytes. -/
def digest (message : List UInt8) : List UInt8 :=
  let padded := pad message
  let s := absorbBlocks (padded.length / rate) (Array.replicate 25 0) padded
  (List.range 4).flatMap fun x => bytesOfLane (lane s x 0)

end TraceDebugger.Keccak
