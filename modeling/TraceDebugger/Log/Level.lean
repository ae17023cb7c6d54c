/-
Severities of log lines.

A severity is a number; some have names, and a few numbers have more than one.
-/

namespace TraceDebugger.LogLevel

def unset : Int := 0
def trace : Int := 5
def debug : Int := 10
def info : Int := 20
def warning : Int := 30
def error : Int := 40
def critical : Int := 50

/-- The severities with their names. -/
def named : List (Int × String) :=
  [(critical, "CRITICAL"), (error, "ERROR"), (warning, "WARNING"), (info, "INFO"), (debug, "DEBUG"),
    (trace, "TRACE"), (unset, "NOTSET")]

/-- Further names. -/
def aliases : List (String × Int) := [("FATAL", critical), ("WARN", warning)]

/-- The name of a severity. -/
def name (level : Int) : String :=
  match named.find? fun entry => entry.1 == level with
  | some (_, name) => name
  | none => s!"Level {level}"

/-- The severity of a name. -/
def ofName? (text : String) : Option Int :=
  match named.find? fun entry => entry.2 == text with
  | some (level, _) => some level
  | none => (aliases.find? fun entry => entry.1 == text).map (·.2)

theorem ofName?_name {level : Int} (h : level ∈ named.map (·.1)) :
    ofName? (name level) = some level := by
  revert level
  decide

/-- The severity from which on lines pass; an unset one passes warnings. -/
def threshold (level : Int) : Int := if level = unset then warning else level

end TraceDebugger.LogLevel
