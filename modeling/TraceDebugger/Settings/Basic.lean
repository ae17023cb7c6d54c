/-
Settings of a debugging session.

A value from a file or from the environment is brought to the kind of its setting; null stays null,
which only some settings may be.  A draft holds the values so far and becomes settings when the log
level exists and the function depth is not negative.
-/
import TraceDebugger.Log.Level
import TraceDebugger.Text.Blank
import TraceDebugger.Text.Lowercase
import TraceDebugger.Text.Named
import TraceDebugger.Yaml.Basic

namespace TraceDebugger

/-- The names of the settings, in their order. -/
inductive SettingName where
  | logLevel
  | logFile
  | useColors
  | checksumAddresses
  | initialFunctionDepth
deriving DecidableEq, Repr, Inhabited

namespace SettingName

def text : SettingName → String
  | logLevel => "log_level"
  | logFile => "log_file"
  | useColors => "use_colors"
  | checksumAddresses => "checksum_addresses"
  | initialFunctionDepth => "initial_function_depth"

def environmentName : SettingName → String
  | logLevel => "SOLSTEP_LOG_LEVEL"
  | logFile => "SOLSTEP_LOG_FILE"
  | useColors => "SOLSTEP_USE_COLORS"
  | checksumAddresses => "SOLSTEP_CHECKSUM_ADDRESSES"
  | initialFunctionDepth => "SOLSTEP_INITIAL_FUNCTION_DEPTH"

def all : List SettingName :=
  [logLevel, logFile, useColors, checksumAddresses, initialFunctionDepth]

def ofText? (text : String) : Option SettingName := Text.named? SettingName.text all text

theorem mem_all (name : SettingName) : name ∈ all := by
  cases name <;> decide

theorem ofText?_text (name : SettingName) : ofText? name.text = some name :=
  Text.named?_name (by decide) name.mem_all

end SettingName

/-- The settings of a session.  A switch may be left null. -/
structure Settings where
  logLevel : String := "INFO"
  logFile : Option String := none
  useColors : Option Bool := some true
  /-- Addresses are spelled with checksums. -/
  checksumAddresses : Option Bool := some false
  /-- The depth of function calls at the first step of a trace. -/
  initialFunctionDepth : Int := 1
deriving DecidableEq, Repr, Inhabited

namespace Settings

/-- The capital of a letter, as far as it can stand in the name of a log level. -/
def capital (c : Char) : Char :=
  if c = 'ı' then 'I' else if c = 'ſ' then 'S' else c.toUpper

/-- The severity of a level name in any case. -/
def levelOf? (name : String) : Option Int :=
  LogLevel.ofName? (String.ofList (name.toList.map capital))

/-- The severity from which on log lines are shown. -/
def level (settings : Settings) : Int := (levelOf? settings.logLevel).getD LogLevel.unset

/-- The log level exists and the depth is not negative. -/
def Valid (settings : Settings) : Prop :=
  (levelOf? settings.logLevel).isSome ∧ 0 ≤ settings.initialFunctionDepth

/-- Settings under way, any of which may be null. -/
structure Draft where
  logLevel : Option String := some "INFO"
  logFile : Option String := none
  useColors : Option Bool := some true
  checksumAddresses : Option Bool := some false
  initialFunctionDepth : Option Int := some 1
deriving DecidableEq, Repr, Inhabited

def ofDraft (draft : Draft) : Except Fault Settings :=
  match draft.logLevel with
  | none => .error (.unfit (.noMember Json.null.kindName "upper"))
  | some logLevel =>
    if (levelOf? logLevel).isNone then .error (.unknownLevel logLevel)
    else match draft.initialFunctionDepth with
      | none => .error (.unfit (.notOrdered Json.null.kindName (Json.int 0).kindName))
      | some depth =>
        if depth < 0 then .error .negativeDepth
        else .ok {
          logLevel, logFile := draft.logFile, useColors := draft.useColors
          checksumAddresses := draft.checksumAddresses, initialFunctionDepth := depth }

theorem valid_of_ofDraft {draft : Draft} {settings : Settings}
    (h : ofDraft draft = .ok settings) : settings.Valid := by
  unfold ofDraft at h
  split at h
  · simp at h
  · next logLevel _ =>
    split at h
    · simp at h
    · next known =>
      split at h
      · simp at h
      · split at h
        · simp at h
        · next nonneg =>
          cases h
          exact ⟨by simpa [Option.isSome_iff_ne_none] using known, by simpa using nonneg⟩

def onWords : List String := ["1", "true", "yes", "on"]

def offWords : List String := ["0", "false", "no", "off"]

def switch? : Yaml → Option Bool
  | .scalar (.bool b) => some b
  | value =>
    let word := String.ofList (Text.lowerChars (Text.trim value.display.toList))
    if onWords.contains word then some true
    else if offWords.contains word then some false
    else none

def number? (value : Yaml) : Option Int := value.toInt.toOption

/-- A value that does not fit its setting. -/
def orBad {α : Type} (name : SettingName) (value : Yaml) (source : Option String) :
    Option α → Except Fault (Option α)
  | some x => .ok (some x)
  | none => .error (.badSetting name.text value.literal source)

/-- A number in a value that may not fit its setting.  The overflow of an infinity is passed on. -/
def numberOrBad (name : SettingName) (value : Yaml) (source : Option String) :
    Except Fault (Option Int) :=
  match value.toInt with
  | .ok n => .ok (some n)
  | .error fault =>
    if fault.kind = .wrongType || fault.kind = .badValue then
      .error (.badSetting name.text value.literal source)
    else .error fault

def Draft.set (source : Option String) (draft : Draft) (name : SettingName) (value : Yaml) :
    Except Fault Draft :=
  match value, name with
  | .scalar .null, .logLevel => .ok { draft with logLevel := none }
  | .scalar .null, .logFile => .ok { draft with logFile := none }
  | .scalar .null, .useColors => .ok { draft with useColors := none }
  | .scalar .null, .checksumAddresses => .ok { draft with checksumAddresses := none }
  | .scalar .null, .initialFunctionDepth => .ok { draft with initialFunctionDepth := none }
  | value, .logLevel => .ok { draft with logLevel := some value.display }
  | value, .logFile => .ok { draft with logFile := some value.display }
  | value, .useColors => (orBad name value source (switch? value)).map fun useColors =>
      { draft with useColors }
  | value, .checksumAddresses =>
    (orBad name value source (switch? value)).map fun checksumAddresses =>
      { draft with checksumAddresses }
  | value, .initialFunctionDepth =>
    (numberOrBad name value source).map fun initialFunctionDepth =>
      { draft with initialFunctionDepth }

def nameOf? : Yaml.Scalar → Option SettingName
  | .str text => SettingName.ofText? text
  | _ => none

def unknownKeys (entries : List (Yaml.Scalar × Yaml)) : List Yaml.Scalar :=
  (entries.map (·.1)).filter fun key => (nameOf? key).isNone

def textOf? : Yaml.Scalar → Option String
  | .str text => some text
  | _ => none

/-- A day is not compared with a moment. -/
def dayWithMoment : ValueFault := .notComparable "datetime.datetime" "datetime.date"

/-- The fault of comparing two keys, if they cannot be compared. -/
def comparisonFault? : Yaml.Scalar → Yaml.Scalar → Option ValueFault
  | .str _, .str _ => none
  | .bytes _, .bytes _ => none
  | .day _, .day _ => none
  | .moment m, .moment m' => if m.offset.isSome = m'.offset.isSome then none else some .mixedOffsets
  | .moment _, .day _ => some dayWithMoment
  | .day _, .moment _ => some dayWithMoment
  | a, b =>
    if a.number?.isSome && b.number?.isSome then none else some (.notOrdered a.kindName b.kindName)

/-- The fault of the first key that cannot be compared with the one before it. -/
def sortingFault? : List Yaml.Scalar → Option ValueFault
  | a :: b :: rest => (comparisonFault? b a).or (sortingFault? (b :: rest))
  | _ => none

/-- The first key is at most the second one; keys of a kind other than numbers and texts are left in
their order. -/
def atMost (a b : Yaml.Scalar) : Bool :=
  match a, b with
  | .str s, .str t => s ≤ t
  | a, b => match a.number?, b.number? with
    | some x, some y => x ≤ y
    | _, _ => true

/-- The first key that is no text, with its place. -/
def textless? (index : Nat) : List Yaml.Scalar → Option (Nat × Yaml.Scalar)
  | [] => none
  | .str _ :: rest => textless? (index + 1) rest
  | key :: _ => some (index, key)

/-- The fault of keys that name no setting, if there are such. -/
def unknownFault? (source : Option String) (keys : List Yaml.Scalar) : Option Fault :=
  if keys.isEmpty then none
  else
    let sorted := keys.mergeSort atMost
    match sortingFault? keys, textless? 0 sorted with
    | some fault, _ => some (.unfit fault)
    | none, some (index, key) => some (.unfit (.notATextItem index key.kindName))
    | none, none => some (.unknownSettings (sorted.filterMap textOf?) source)

def Draft.setAll (source : Option String) (draft : Draft) (entries : List (Yaml.Scalar × Yaml)) :
    Except Fault Draft :=
  entries.foldlM (fun draft (key, value) => match nameOf? key with
    | some name => draft.set source name value
    | none => .ok draft) draft

/-- The settings of some entries, from a source if one is known. -/
def ofEntries (source : Option String) (entries : List (Yaml.Scalar × Yaml)) :
    Except Fault Settings :=
  match unknownFault? source (unknownKeys entries) with
  | some fault => .error fault
  | none => do ofDraft (← Draft.setAll source {} entries)

end Settings

end TraceDebugger
