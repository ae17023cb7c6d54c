/-
Lines of the log of a session.

A line keeps the cursor at the time at which it was written; there is none before a trace is loaded.
-/
import TraceDebugger.Log.Level

namespace TraceDebugger

structure LogLine where
  level : Int
  component : String
  message : String
  cursor : Option Nat
deriving DecidableEq, Repr, Inhabited

namespace LogLine

/-- The full name of a part of the debugger; no name is the whole. -/
def sourceName (component : Option String) : String :=
  match component with
  | some part => if part = "" then "solstep" else "solstep." ++ part
  | none => "solstep"

/-- A line on a console without colors. -/
def consoleText (level step source message : String) : String :=
  s!"{level}: [{step}] {source}: {message}"

def text (line : LogLine) : String :=
  let step := match line.cursor with
    | some cursor => toString cursor
    | none => "-"
  consoleText (LogLevel.name line.level) step (sourceName (some line.component)) line.message

/-- The lines that pass at a severity. -/
def passing (level : Int) (lines : List LogLine) : List LogLine :=
  lines.filter fun line => LogLevel.threshold level ≤ line.level

end LogLine

end TraceDebugger
