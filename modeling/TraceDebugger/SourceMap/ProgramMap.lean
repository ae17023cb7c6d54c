/-
From program counters to source ranges.

A program map holds the entries of a source map, one for each instruction, and the number of the
instruction at each program counter.  The instructions of a byte code are found by skipping the data
that follows a push.
-/
import TraceDebugger.SourceMap.Parser
import TraceDebugger.SourceMap.Range

namespace TraceDebugger

open Text

namespace Bytecode

/-- How many bytes of data follow an instruction. -/
def immediateSize (op : UInt8) : Nat :=
  if 0x60 ≤ op.toNat ∧ op.toNat ≤ 0x7f then op.toNat - 0x5f else 0

/-- The program counters of the instructions in a code, with their numbers; the code begins at a
program counter and with a number. -/
def instructionsFrom (pc number : Nat) : List UInt8 → List (Nat × Nat)
  | [] => []
  | op :: rest =>
    (pc, number) ::
      instructionsFrom (pc + 1 + immediateSize op) (number + 1) (rest.drop (immediateSize op))
termination_by code => code.length
decreasing_by rw [List.length_drop, List.length_cons]; omega

def instructions (code : List UInt8) : List (Nat × Nat) := instructionsFrom 0 0 code

end Bytecode

/-- Everything needed to turn a program counter of one contract into a source range. -/
structure ProgramMap where
  name : String
  /-- The sources by file index. -/
  sources : List LineIndex
  /-- One entry for each instruction. -/
  entries : List MapEntry
  /-- The number of the instruction at each program counter. -/
  instructionAt : List (Int × Int)
deriving Repr, Inhabited

namespace ProgramMap

def instructionNumber? (map : ProgramMap) (pc : Int) : Option Int :=
  (map.instructionAt.find? fun entry => entry.1 == pc).map (·.2)

/-- The entry of an instruction, if there is one; a negative number counts from the end. -/
def entryOf (map : ProgramMap) (number : Int) : Except Fault (Option MapEntry) :=
  if 0 ≤ number then .ok map.entries[number.toNat]?
  else
    let fromEnd := number.natAbs
    if fromEnd ≤ map.entries.length then .ok map.entries[map.entries.length - fromEnd]?
    else .error (.unfit .indexOutOfRange)

def entryAt (map : ProgramMap) (pc : Int) : Except Fault (Option MapEntry) :=
  match map.instructionNumber? pc with
  | some number => map.entryOf number
  | none => .ok none

/-- The range of an entry.  One outside the known sources has no lines. -/
def rangeOf (map : ProgramMap) (entry : MapEntry) : SourceRange :=
  let unknown : SourceRange :=
    { start := entry.offset, length := entry.length, first := ⟨0, 0⟩, last := ⟨0, 0⟩,
      fileIndex := entry.fileIndex }
  if entry.fileIndex < 0 then unknown
  else match map.sources[entry.fileIndex.toNat]? with
    | some index => index.range entry.offset entry.length entry.fileIndex
    | none => unknown

def rangeAt (map : ProgramMap) (pc : Int) : Except Fault (Option SourceRange) :=
  (map.entryAt pc).map (·.map map.rangeOf)

/-- The jump at a program counter; one without an entry is regular. -/
def jumpAt (map : ProgramMap) (pc : Int) : Except Fault Jump :=
  (map.entryAt pc).map fun entry => (entry.map (·.jump)).getD .regular

/-- The bytes of a code written in hexadecimal, with or without `0x`. -/
def codeBytes (name code : String) : Except Fault (List UInt8) :=
  let digits := match code.toList with
    | '0' :: 'x' :: rest => rest
    | cs => cs
  match readBytes digits with
  | .ok bytes => .ok bytes
  | .error position =>
    .error (.malformedBytecode name (ValueFault.badHexByte position).message)

def ofBytes (name : String) (code : List UInt8) (map : String) (sources : List String) :
    Except Fault ProgramMap := do
  let entries ← SourceMap.parse map
  return {
    name, entries
    sources := sources.map LineIndex.ofSource
    instructionAt := (Bytecode.instructions code).map fun (pc, number) => (pc, number) }

/-- The map of a contract from its code in hexadecimal, its source map and the sources. -/
def ofCompiler (name code map : String) (sources : List String) : Except Fault ProgramMap := do
  ofBytes name (← codeBytes name code) map sources

end ProgramMap

end TraceDebugger
