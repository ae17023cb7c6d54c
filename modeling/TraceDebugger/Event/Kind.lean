/-
Kinds of events.

Every change of the debugger's state is published as an event.  A kind is known by its name; a name
that belongs to no kind is kept as it is (`name_ofName`).
-/
import TraceDebugger.Text.Named

namespace TraceDebugger

/-- The commands that move a debugging session forward. -/
inductive Command where
  | advance
  | stepNext
  | stepOver
  | stepInto
  | stepOut
  | continueUntil
deriving DecidableEq, Repr, Inhabited

namespace Command

def name : Command → String
  | advance => "ADVANCE"
  | stepNext => "STEP_NEXT"
  | stepOver => "STEP_OVER"
  | stepInto => "STEP_INTO"
  | stepOut => "STEP_OUT"
  | continueUntil => "CONTINUE_UNTIL"

def all : List Command := [advance, stepNext, stepOver, stepInto, stepOut, continueUntil]

theorem mem_all (command : Command) : command ∈ all := by cases command <;> decide

end Command

/-- What an event is about. -/
inductive EventKind where
  | command (command : Command)
  /-- The running command should stop. -/
  | interrupt
  | beginStep
  | endStep
  | saveSteps
  /-- The call targets of the saved trace are known. -/
  | receiveAddresses
  | next
  /-- The step under the cursor is processed. -/
  | tick
  /-- The cursor moves past a step that is not the last one. -/
  | tock
  /-- The cursor moves to the end of the trace. -/
  | endOfTrace
  | call
  | create
  | returnCall
  | jump
  | assign
  | other (name : String)
deriving DecidableEq, Repr, Inhabited

namespace EventKind

/-- The kinds that have a name of their own. -/
def named : List EventKind :=
  Command.all.map command ++
    [interrupt, beginStep, endStep, saveSteps, receiveAddresses, next, tick, tock, endOfTrace,
      call, create, returnCall, jump, assign]

def commands : List EventKind := Command.all.map command

def name : EventKind → String
  | command c => c.name
  | interrupt => "INTERRUPT"
  | beginStep => "BEGIN_STEP"
  | endStep => "END_STEP"
  | saveSteps => "SAVE_STEPS"
  | receiveAddresses => "RECEIVE_ADDRESSES"
  | next => "NEXT"
  | tick => "TICK"
  | tock => "TOCK"
  | endOfTrace => "END_OF_TRACE"
  | call => "CALL"
  | create => "CREATE"
  | returnCall => "RETURN_CALL"
  | jump => "JUMP"
  | assign => "ASSIGN"
  | other name => name

def ofName (text : String) : EventKind :=
  (Text.named? name named text).getD (other text)

def command? : EventKind → Option Command
  | command c => some c
  | _ => none

theorem name_ofName (text : String) : (ofName text).name = text :=
  Text.name_getD_named? (fun _ => rfl) text

theorem ofName_name {kind : EventKind} (h : kind ∈ named) : ofName kind.name = kind := by
  rw [ofName, Text.named?_name (by decide) h, Option.getD_some]

end EventKind

end TraceDebugger
