/-
Fault reports.

A report has a kind, a message, a code and details in order.  As an object it holds the mark
`error`, the code, the message and then the details, which may replace the mark and the code but may
not repeat the names of the message or of the code's argument.
-/
import TraceDebugger.Fault.Basic
import TraceDebugger.Json.Printer

namespace TraceDebugger

/-- What is told about a fault. -/
structure Report where
  kind : FaultKind
  message : Json
  details : List (String × Json) := []
  code : String := kind.name
deriving Repr

namespace Report

def merge (members extra : List (String × Json)) : List (String × Json) :=
  extra.foldl (fun members m => Json.setMember m.1 m.2 members) members

/-- A detail that stands only if it is set. -/
def whenSet (name : String) (value : Json) : List (String × Json) :=
  if value.truthy then [(name, value)] else []

/-- A detail that stands unless it is null. -/
def unlessNull (name : String) : Json → List (String × Json)
  | .null => []
  | value => [(name, value)]

/-- A general report; an unset code is the name of the kind. -/
def general (message : Json) (details : List (String × Json)) (code : Json) : Report :=
  { kind := .general, message, details,
    code := if code.truthy then code.display else FaultKind.general.name }

/-- A report about a trace, with the index of a step unless it is null. -/
def trace (kind : FaultKind) (message : Json) (stepIndex : Json) (extra : List (String × Json)) :
    Report :=
  { kind, message, details := merge (unlessNull "step_index" stepIndex) extra }

def traceNotLoaded (stepIndex : Json) (extra : List (String × Json)) : Report :=
  trace .traceNotLoaded (.str Fault.traceNotLoaded.message) stepIndex extra

def invalidStep (stepIndex reason : Json) (extra : List (String × Json)) : Report :=
  trace .invalidStep (.str s!"Invalid trace step {stepIndex.display}: {reason.display}") stepIndex
    (merge [("reason", reason)] extra)

/-- A report about a text that could not be read, with its source if one is set. -/
def parse (kind : FaultKind) (message source : Json) (extra : List (String × Json)) : Report :=
  { kind, message, details := merge (whenSet "source" source) extra }

def nodeNotFound (reference source : Json) (extra : List (String × Json)) : Report :=
  parse .nodeNotFound (.str (Fault.nodeNotFound reference.display).message) source
    (merge [("reference", reference)] extra)

def unknownCommand (command : Json) (extra : List (String × Json)) : Report :=
  { kind := .unknownCommand, message := .str (Fault.unknownCommand command.display).message,
    details := merge [("command", command)] extra }

def commandInProgress (command running : Json) (extra : List (String × Json)) : Report :=
  { kind := .commandInProgress,
    message := .str (Fault.commandInProgress command.display running.display).message,
    details := merge [("command", command), ("running", running)] extra }

/-- A report about settings, with the file if one is set. -/
def settings (message file : Json) (extra : List (String × Json)) : Report :=
  { kind := .settings, message, details := merge (whenSet "config_file" file) extra }

/-- The message of a fault that is not the debugger's own, from the values it was raised with. -/
def plainMessage (kind : FaultKind) : List Json → String
  | [] => ""
  | [value] => if kind = .missingKey then value.literal else value.display
  | values => "(" ++ String.intercalate ", " (Json.literals values) ++ ")"

def plain (kind : FaultKind) (values : List Json) : Report :=
  { kind, message := .str (plainMessage kind values) }

def ofFault (fault : Fault) : Report :=
  { kind := fault.kind, message := .str fault.message, details := fault.details }

def members (report : Report) : Except Fault (List (String × Json)) :=
  match report.details.find? fun m => m.1 = "message" || m.1 = "error_type" with
  | some (name, _) => .error (.unfit (.duplicateArgument name))
  | none =>
    .ok (merge [("error", .bool true), ("type", .str report.code), ("message", report.message)]
      report.details)

def toJson (report : Report) : Except Fault Json := report.members.map .obj

/-- The escape sequence for bright red and the one that ends it. -/
def brightRed : String := "\x1b[91m"
def resetColor : String := "\x1b[0m"

/-- The message for a terminal, bright red on one with colors. -/
def terminalText (colored : Bool) (report : Report) : String :=
  if colored then brightRed ++ report.message.display ++ resetColor else report.message.display

end Report

end TraceDebugger
