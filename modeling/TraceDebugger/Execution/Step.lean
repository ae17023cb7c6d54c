/-
Steps of an execution trace.

The stack of a step holds its words bottom first and may be missing.
-/
import TraceDebugger.Execution.Address
import TraceDebugger.Execution.Opcode

namespace TraceDebugger

structure Step where
  pc : Int
  op : String
  gas : Int := 0
  gasCost : Int := 0
  depth : Int := 1
  /-- Stack words, bottom first. -/
  stack : Option (List String) := some []
  memory : Option String := none
  storage : Json := .null
  error : Json := .null
  /-- The address that is executing, where the source of the trace tells it. -/
  address : Json := .null
  code : Json := .null
deriving Inhabited, Repr

namespace Step

/-- The word `depth` places below the top of a stack. -/
def belowTop (depth : Nat) (words : List String) : Option String := words.reverse[depth]?

/-- The index of the word on top of the stack, counted from the bottom. -/
def top (step : Step) : Except Fault Int :=
  match step.stack with
  | some words => .ok ((words.length : Int) - 1)
  | none => .error (.unfit (.noLength "NoneType"))

/-- The words shown for a limit: that many from the top for a positive limit, all for zero, and all
but that many from the bottom for a negative one. -/
def shownWords (limit : Int) (words : List String) : List String :=
  if 0 < limit then Address.lastOf limit.toNat words else words.drop limit.natAbs

def wordText (word : String) : String :=
  let digits := word.toList.dropWhile (· == '0')
  "0x" ++ if digits.isEmpty then "0" else String.ofList digits

/-- The top of the stack for display, top word first. -/
def stackText (limit : Int) (step : Step) : String :=
  match step.stack with
  | none | some [] => "[empty]"
  | some words =>
    let shown := (shownWords limit words).reverse.zipIdx.map fun (word, i) =>
      s!"[{i}] " ++ wordText word
    let hidden : Int := (words.length : Int) - limit
    String.intercalate " " (if 0 < hidden then shown ++ [s!"... +{hidden} more"] else shown)

/-- The word that holds the target of a call: the second from the top. -/
def targetWord? (step : Step) : Option String := step.stack.bind (belowTop 1)

end Step

/-- The targets of the calls in a trace that announce theirs, each once, in the order of their first
occurrence. -/
def callTargets (checksum : Option Address.Checksum) (steps : List Step) :
    Except Fault (List String) :=
  ((steps.filter fun step => Opcode.announcesTarget step.op).filterMap Step.targetWord?).mapM
    (Address.ofText checksum) |>.map Address.dedupe

end TraceDebugger
