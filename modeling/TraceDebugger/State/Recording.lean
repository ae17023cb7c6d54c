/-
The recorded trace and the cursor in it.

The cursor stands before the step that executes next.  It never passes the end of the trace, and the
trace is finished when it stands there.
-/
import TraceDebugger.Event.Basic

namespace TraceDebugger

/-- A trace, the cursor in it, and the targets of its calls. -/
structure Recording where
  steps : List Step := []
  cursor : Nat := 0
  /-- A trace has been saved. -/
  loaded : Bool := false
  addresses : List String := []
  cursor_le : cursor ≤ steps.length := by exact Nat.zero_le _

namespace Recording

def empty : Recording := {}

instance : Inhabited Recording := ⟨empty⟩

/-- How many steps have not been processed. -/
def remaining (recording : Recording) : Nat := recording.steps.length - recording.cursor

/-- A trace has been saved and the cursor stands at its end. -/
def finished (recording : Recording) : Bool :=
  recording.loaded && recording.steps.length ≤ recording.cursor

def nextStep (recording : Recording) : Option Step := recording.steps[recording.cursor]?

def ofSteps (steps : List Step) : Recording := { steps, loaded := true }

/-- The cursor moves past the step under it, if there is one. -/
def forward (recording : Recording) : Recording :=
  if h : recording.cursor < recording.steps.length then
    { recording with cursor := recording.cursor + 1, cursor_le := h }
  else recording

def toEnd (recording : Recording) : Recording :=
  { recording with cursor := recording.steps.length, cursor_le := Nat.le_refl _ }

def reduce (event : Event) (recording : Recording) : Except Fault Recording :=
  match event.kind with
  | .saveSteps => (Event.need "steps" event.payload.steps).map ofSteps
  | .receiveAddresses =>
    (Event.need "addresses" event.payload.addresses).map fun addresses =>
      { recording with addresses }
  | .tock => .ok recording.forward
  | .endOfTrace => .ok recording.toEnd
  | _ => .ok recording

end Recording

end TraceDebugger
