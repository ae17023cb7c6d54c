/-
What can be read about the step under the cursor: its opcode class, its source range, its node in
the syntax tree and the program that it belongs to.

The program is that of the step's own address if it has one, and otherwise that of the frame that is
held while the step is processed, or of the current frame between two steps.
-/
import TraceDebugger.Text.Segment
import TraceDebugger.Workbench.Basic

namespace TraceDebugger.Workbench

/-- The step under the cursor. -/
def step (bench : Workbench) : Option Step := bench.recording.nextStep

/-- The opcode of the step is of a class. -/
def opIs (bench : Workbench) (ofClass : String → Bool) : Bool :=
  bench.step.any fun step => ofClass step.op

def currentCall (bench : Workbench) : Frame := bench.slices.callStack.current

/-- The frame that a step without an address of its own belongs to. -/
def ownerFrame (bench : Workbench) : Frame := bench.held.getD bench.currentCall

/-- The program of the frame that a step belongs to. -/
def frameProgram (bench : Workbench) : Option Program :=
  bench.programs.lookup bench.ownerFrame.address bench.ownerFrame.binary

def program (bench : Workbench) : Except Fault (Option Program) :=
  match bench.step with
  | none => .ok bench.frameProgram
  | some step =>
    if step.address.truthy then
      match step.address with
      | .str address => .ok (bench.programs.lookup (some address) none)
      | value => .error (.unfit (.noMember value.kindName "lower"))
    else .ok bench.frameProgram

def jump (bench : Workbench) : Except Fault Jump := do
  match bench.step, ← bench.program with
  | some step, some program => program.map.jumpAt step.pc
  | _, _ => return .regular

def range (bench : Workbench) : Except Fault (Option SourceRange) := do
  match bench.step, ← bench.program with
  | some step, some program => program.map.rangeAt step.pc
  | _, _ => return none

def isMultiline (bench : Workbench) : Except Fault Bool :=
  bench.range.map fun range => range.any SourceRange.isMultiline

def tree (bench : Workbench) : Except Fault (Option SyntaxTree) := do
  match ← bench.program with
  | some program => return program.treeFor (← bench.range)
  | none => return none

/-- What the syntax tree of the step is known by. -/
def treeId (bench : Workbench) : Except Fault TreeId :=
  bench.tree.map fun tree => tree.map (·.index)

def node (bench : Workbench) : Except Fault (Option Node) := do
  match ← bench.range, ← bench.tree with
  | some range, some tree => return tree.find? range.start range.length
  | _, _ => return none

def scopes (bench : Workbench) : Except Fault (List (NodeId × Scope)) := do
  match ← bench.tree with
  | some tree => tree.scopes
  | none => return []

/-- The objects of the tree of the step by identity. -/
def definitions (bench : Workbench) : Except Fault (List (NodeId × Json)) :=
  bench.tree.map fun tree => (tree.map SyntaxTree.definitions).getD []

/-- The target of the step if it is a call: the second word from the top of its stack. -/
def callAddress (bench : Workbench) : Except Fault (Option String) :=
  match bench.step.bind Step.targetWord? with
  | some word => (Address.ofText bench.checksum word).map some
  | none => .ok none

/-- The code that the step deploys if it is a creation: the part of its memory whose offset and
size are the second and the third word from the top of its stack. -/
def createBinary (bench : Workbench) : Except Fault (Option String) :=
  match bench.step with
  | none => .ok none
  | some step =>
    match step.stack.bind (Step.belowTop 1), step.stack.bind (Step.belowTop 2), step.memory with
    | some offsetWord, some sizeWord, some memory => do
      if memory = "" then return none
      let offset ← Json.readInt 16 offsetWord
      let size ← Json.readInt 16 sizeWord
      let digits := memory.toList
      let stop := (offset + size) * 2
      if digits.length < stop then return none
      return some ("0x" ++ String.ofList (Text.segment (offset * 2) stop digits))
    | _, _, _ => .ok none

end TraceDebugger.Workbench
