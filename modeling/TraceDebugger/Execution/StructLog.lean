/-
Steps from the struct logs of a traced transaction.

The program counter and the opcode are required; a log entry without them, or with ones that cannot
be read, is reported with its index.  The faults of the other fields are passed on as they are, and
so is that of a program counter that is infinite.  The words of the stack and of the memory are
handed over as JSON, or as a list in which words may be bytes.
-/
import TraceDebugger.Execution.Step
import TraceDebugger.Json.Reading

namespace TraceDebugger.StructLog

open Text

/-- The words of a stack or of a memory as they are given. -/
inductive Words where
  | value (json : Json)
  | list (words : List RawWord)
deriving Inhabited

namespace Words

/-- The words of a stack in fixed width. -/
def normalized : Words → Except Fault (Option (List String))
  | value .null => .ok none
  | value json => json.items.map fun words => some (words.map fun word => Word.normalize (.value word))
  | list words => .ok (some (words.map Word.normalize))

/-- The words of a memory: joined together, or one text without its mark. -/
def memoryText : Words → Option String
  | value .null => none
  | value (.arr words) => some (String.join (words.map fun word => Word.normalize (.value word)))
  | value json => some (String.ofList (dropHexMark json.display.toList))
  | list words => some (String.join (words.map Word.normalize))

end Words

/-- A log entry: its members, and the words of its stack and of its memory. -/
structure Entry where
  members : Json
  stack : Words
  memory : Words
deriving Inhabited

def position (entry : Json) : Except Fault (Int × String) := do
  let pc ← (← entry.require "pc").toInt
  let op ← entry.require "op"
  return (pc, op.display)

/-- The fault of a position is reported with the index of its entry. -/
def isReported (fault : Fault) : Bool :=
  [FaultKind.missingKey, .wrongType, .badValue].contains fault.kind

/-- A number in an entry, or a value in place of a missing one. -/
def number (name : String) (missing : Int) (entry : Json) : Except Fault Int :=
  match entry.get? name with
  | some value => value.toInt
  | none => .ok missing

/-- A member of an entry, or null where it is missing. -/
def optional (name : String) (entry : Json) : Json := (entry.get? name).getD .null

namespace Entry

/-- An entry that is handed over as JSON throughout. -/
def ofJson (json : Json) : Entry where
  members := json
  stack := .value (optional "stack" json)
  memory := .value (optional "memory" json)

def toStep (index : Int) (entry : Entry) : Except Fault Step :=
  match position entry.members with
  | .error fault =>
    .error (if isReported fault then
      .invalidStep index ("missing or malformed field " ++ fault.message) else fault)
  | .ok (pc, op) => do
    let gas ← number "gas" 0 entry.members
    let gasCost ← number "gasCost" 0 entry.members
    let depth ← number "depth" 1 entry.members
    let stack ← entry.stack.normalized
    return {
      pc, op, gas, gasCost, depth, stack
      memory := entry.memory.memoryText
      storage := optional "storage" entry.members
      error := optional "error" entry.members
      address := optional "address" entry.members
      code := optional "code" entry.members }

/-- The steps of log entries, the first one having index `first`. -/
def toStepsFrom (first : Int) : List Entry → Except Fault (List Step)
  | [] => .ok []
  | entry :: rest => do
    let step ← toStep first entry
    let steps ← toStepsFrom (first + 1) rest
    return step :: steps

def toSteps (entries : List Entry) : Except Fault (List Step) := toStepsFrom 0 entries

end Entry

def toStep (index : Int) (entry : Json) : Except Fault Step := (Entry.ofJson entry).toStep index

def toSteps (entries : List Json) : Except Fault (List Step) :=
  Entry.toSteps (entries.map Entry.ofJson)

end TraceDebugger.StructLog
