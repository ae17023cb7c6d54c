/-
Settings in files and in the environment.

A file is a document whose section for the debugger, or else the whole of it, holds settings; what
the environment says comes before what the file says.
-/
import TraceDebugger.Settings.Basic
import TraceDebugger.Text.Split
import TraceDebugger.Yaml.Format

namespace TraceDebugger.Settings

open Yaml (Scalar Simple)

/-- The file that is read when no other is named. -/
def defaultFile : String := "solstep.config.yaml"

def sectionName : String := "solstep"

/-- The key of an entry that is given as a pair. -/
def keyOf : Yaml → Except Fault Scalar
  | .scalar key => .ok key
  | value => .error (.unfit (.notHashable value.kindName))

/-- The entry that an item of a list of pairs is. -/
def pairOf (index : Nat) : Yaml → Except Fault (Scalar × Yaml)
  | .list [key, value] => (keyOf key).map fun key => (key, value)
  | .list items => .error (.unfit (.notAPair index items.length))
  | .map [(key, _), (value, _)] => .ok (key, .scalar value)
  | .map entries => .error (.unfit (.notAPair index entries.length))
  | .scalar (.str text) =>
    match text.toList with
    | [key, value] => .ok (.str key.toString, .str value.toString)
    | cs => .error (.unfit (.notAPair index cs.length))
  | .scalar (.bytes [key, value]) => .ok (.int key.toNat, .scalar (.int value.toNat))
  | .scalar (.bytes content) => .error (.unfit (.notAPair index content.length))
  | .scalar _ => .error (.unfit (.notASequence index))

/-- The entries of a section: those of a mapping, or pairs. -/
def entriesOf : Yaml → Except Fault (List (Scalar × Yaml))
  | .map entries => .ok entries
  | .list items => (items.zipIdx.mapM fun (item, index) => pairOf index item).map Yaml.ofEntries
  | .scalar (.str text) =>
    if text = "" then .ok [] else .error (.unfit (.notAPair 0 1))
  | .scalar (.bytes content) =>
    if content.isEmpty then .ok [] else .error (.unfit (.notASequence 0))
  | .scalar value => .error (.unfit (.notIterable value.kindName))

def entriesOfDocument (file : String) (document : Yaml) : Except Fault (List (Scalar × Yaml)) :=
  if document.truthy then
    match document with
    | .map entries => entriesOf ((Yaml.find? (.str sectionName) entries).getD document)
    | _ => .error (.notAMapping file)
  else .ok []

/-- The entries with those that the environment sets. -/
def withEnvironment (environment : List (String × String)) (entries : List (Scalar × Yaml)) :
    List (Scalar × Yaml) :=
  SettingName.all.foldl (fun entries name =>
    match environment.find? fun entry => entry.1 == name.environmentName with
    | some (_, value) => Yaml.setKey (.str name.text) (.str value) entries
    | none => entries) entries

def ofDocument (file : String) (environment : List (String × String)) (document : Option Yaml) :
    Except Fault Settings := do
  let entries ← match document with
    | some document => entriesOfDocument file document
    | none => .ok []
  ofEntries (some file) (withEnvironment environment entries)

/-- A path without empty parts and without parts that stay where they are. -/
def plainPath (path : String) : String :=
  let cs := path.toList
  let parts := (Text.splitBy '/' cs).filter fun part => part != [] && part != ['.']
  let slashes := (cs.takeWhile (· == '/')).length
  let root := if slashes = 0 then [] else if slashes = 2 then ['/', '/'] else ['/']
  let joined := root ++ Text.joinWith '/' parts
  if joined.isEmpty then "." else String.ofList joined

/-- The settings from a folder of files.  A file that is named has to be there. -/
def load (format : Yaml.Format) (folder : List (String × String)) (path : Option String)
    (environment : List (String × String)) : Except Fault Settings :=
  let named := path.filter (· != "")
  let file := plainPath (named.getD defaultFile)
  match folder.find? fun entry => plainPath entry.1 == file with
  | some (_, text) =>
    match format.read text with
    | .ok document => ofDocument file environment (some document)
    | .error .malformed => .error (.malformedDocument file)
    | .error (.unfit cause) => .error (.unfit cause)
  | none => if named.isSome then .error (.missingFile file) else ofDocument file environment none

/-- A setting that may be null. -/
def orNull {α : Type} (simple : α → Simple) : Option α → Simple
  | some value => simple value
  | none => .null

def toSection (settings : Settings) : Yaml.Section where
  name := sectionName
  entries :=
    [(SettingName.logLevel.text, .str settings.logLevel),
      (SettingName.logFile.text, orNull .str settings.logFile),
      (SettingName.useColors.text, orNull .bool settings.useColors),
      (SettingName.checksumAddresses.text, orNull .bool settings.checksumAddresses),
      (SettingName.initialFunctionDepth.text, .int settings.initialFunctionDepth)]

def save (format : Yaml.Format) (settings : Settings) : String := format.write settings.toSection

end TraceDebugger.Settings
