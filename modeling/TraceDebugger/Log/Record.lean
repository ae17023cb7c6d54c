/-
Log records and how they are formatted.

A record has a message template with its arguments, a severity, the name of the part that wrote it
and the step at which it was written.  It is put on a line by a template of its own, whose arguments
are the fields of the record.
-/
import TraceDebugger.Log.Line
import TraceDebugger.Log.Template

namespace TraceDebugger

structure LogRecord where
  level : Int
  source : String
  template : String
  arguments : List Json := []
  /-- The step at which the record was written; null if there is none. -/
  cursor : Json := .null
deriving Inhabited

namespace LogRecord

def step (record : LogRecord) : Json :=
  match record.cursor with
  | .null => .str "-"
  | cursor => cursor

/-- The arguments as the template takes them: a single object that is not empty gives them by
name. -/
def templateArguments (record : LogRecord) : Template.Arguments :=
  match record.arguments with
  | [.obj (first :: rest)] => .named (first :: rest)
  | values => .ordered values

/-- The message; a template without arguments stands for itself. -/
def message (record : LogRecord) : Except Fault String :=
  if record.arguments.isEmpty then .ok record.template
  else Template.fill record.template record.templateArguments

/-- The escape sequences for the colors of severities. -/
def colors : List (Int × String) :=
  [(LogLevel.trace, "\x1b[2m"), (LogLevel.debug, "\x1b[2m"), (LogLevel.info, "\x1b[96m"),
    (LogLevel.warning, "\x1b[93m"), (LogLevel.error, "\x1b[91m"),
    (LogLevel.critical, "\x1b[1m\x1b[91m")]

def resetColor : String := "\x1b[0m"

/-- The name of the severity, in its color if colors are wanted. -/
def levelName (colored : Bool) (record : LogRecord) : String :=
  let name := LogLevel.name record.level
  match colors.find? fun entry => entry.1 == record.level with
  | some (_, color) => if colored then color ++ name ++ resetColor else name
  | none => name

def fields (colored : Bool) (message : String) (record : LogRecord) : List (String × Json) :=
  [("name", .str record.source), ("msg", .str record.template), ("message", .str message),
    ("levelname", .str (record.levelName colored)), ("levelno", .int record.level),
    ("step", record.step)]

def consoleFormat : String := "%(levelname)s: [%(step)s] %(name)s: %(message)s"

def bareFormat : String := "%(message)s"

def isNameChar (c : Char) : Bool := c.isAlphanum || c = '_' || 128 ≤ c.toNat

/-- Pass a count, which is a star or some digits. -/
def passCount : List Char → List Char
  | '*' :: rest => rest
  | cs => cs.dropWhile Char.isDigit

/-- A directive that uses a field begins here. -/
def beginsField : List Char → Bool
  | '%' :: '(' :: rest =>
    let name := rest.takeWhile isNameChar
    match rest.drop name.length with
    | ')' :: rest =>
      let rest := passCount (rest.dropWhile fun c => ['#', '0', '+', ' ', '-'].contains c)
      let rest := match rest with
        | '.' :: '*' :: rest => rest
        | '.' :: d :: rest => if d.isDigit then rest.dropWhile Char.isDigit else '.' :: d :: rest
        | rest => rest
      !name.isEmpty && rest.head?.any fun c => "diouxefgcrsa%".toList.contains c.toLower
    | _ => false
  | _ => false

/-- A format uses some field. -/
def usesField : List Char → Bool
  | [] => false
  | c :: rest => beginsField (c :: rest) || usesField rest

/-- The record on a line of a format. -/
def format (format : String) (colored : Bool) (record : LogRecord) : Except Fault String := do
  if !usesField format.toList then Template.fail (.fieldlessTemplate format)
  let message ← record.message
  match Template.fill format (.named (record.fields colored message)) with
  | .error (.unfit (.missingKey name)) => Template.fail (.noSuchField name)
  | result => result

def consoleText (record : LogRecord) : Except Fault String :=
  record.format consoleFormat false

end LogRecord

/-- How a log is set up. -/
structure LogSetup where
  base : Int := LogLevel.info
  quiet : Bool := false
  debug : Bool := false
  verbose : Bool := false
  /-- The file that receives the log as well. -/
  file : Option String := none
deriving DecidableEq, Repr, Inhabited

namespace LogSetup

/-- The severity of the log: switches come before the base. -/
def level (setup : LogSetup) : Int :=
  if setup.verbose then LogLevel.trace
  else if setup.debug then LogLevel.debug
  else setup.base

def hasFile (setup : LogSetup) : Bool := setup.file.any (· != "")

def passes (setup : LogSetup) (record : LogRecord) : Bool :=
  LogLevel.threshold setup.level ≤ record.level

/-- A receiver of the log and the severity from which on it takes records. -/
inductive Receiver where
  | console (level : Int)
  | file (level : Int)
deriving DecidableEq, Repr, Inhabited

def receivers (setup : LogSetup) : List Receiver :=
  (if setup.quiet then [] else [.console setup.level])
    ++ (if setup.hasFile then [.file LogLevel.trace] else [])

/-- The lines that a record puts on the console.  Without any receiver a warning is shown by its
message alone. -/
def consoleLines (setup : LogSetup) (record : LogRecord) : Except Fault (List String) :=
  if !setup.passes record then .ok []
  else if setup.receivers.isEmpty then
    if LogLevel.warning ≤ record.level then record.message.map ([·]) else .ok []
  else if setup.quiet || record.level < setup.level then .ok []
  else record.consoleText.map ([·])

def fileFormat : String := "[%(step)s] %(name)s - %(levelname)s - %(message)s"

/-- The lines that a record puts into the file, without their times. -/
def fileLines (setup : LogSetup) (record : LogRecord) : Except Fault (List String) :=
  if setup.passes record && setup.hasFile && LogLevel.trace ≤ record.level then
    (record.format fileFormat false).map ([·])
  else .ok []

end LogSetup

end TraceDebugger
