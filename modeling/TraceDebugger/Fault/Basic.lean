/-
What can go wrong, by cause.

`ValueFault` holds the ways in which a value taken from outside does not fit the use that is made of
it; `Fault` adds the causes that belong to the debugger.  `kind`, `message` and `details` say how a
fault is reported.
-/
import TraceDebugger.Fault.Kind
import TraceDebugger.Json.Literal

namespace TraceDebugger

open Text (quoted)

/-- A value does not fit the use that is made of it.  Kinds are given by their words. -/
inductive ValueFault where
  | missingKey (key : Json)
  | badInteger (text : String) (base : Nat)
  /-- A byte string is no decimal integer; it is given by its literal. -/
  | badByteInteger (literal : String)
  /-- A value of that kind is neither a number nor a text. -/
  | notANumber (kind : String)
  /-- A numeral in a given base has to be a text. -/
  | notANumeral
  | infinite
  | noMember (kind member : String)
  | notIterable (kind : String)
  | notReversible (kind : String)
  | notSubscriptable (kind : String)
  | notHashable (kind : String)
  | noLength (kind : String)
  | notMatchable (kind : String)
  | notOrdered (left right : String)
  /-- Values of these kinds are ordered among themselves, but not with each other. -/
  | notComparable (left right : String)
  /-- A moment with an offset is compared with one without. -/
  | mixedOffsets
  /-- A list takes no name as an index. -/
  | listIndex
  | textIndex
  /-- An item of a list of names is no text. -/
  | notATextItem (index : Nat) (kind : String)
  /-- An item of a list of pairs has another length than two. -/
  | notAPair (index length : Nat)
  /-- An item of a list of pairs cannot be taken apart. -/
  | notASequence (index : Nat)
  | divisionByZero
  | indexOutOfRange
  | badYear (year : Nat)
  | badMonth
  | badDay
  /-- A part of a time of day is larger than it may be. -/
  | badTimePart (name : String) (most : Nat)
  /-- A stretch of time is no offset from universal time. -/
  | badOffset (literal : String)
  | notHexadecimal (text : String)
  /-- A character at that position is no part of a byte string. -/
  | badHexByte (position : Nat)
  | duplicateArgument (name : String)
  | tooFewArguments
  | tooManyArguments
  /-- A template asks for a number and is given a value of that kind. -/
  | notAReal (directive : Char) (kind : String)
  | notAnInteger (directive : Char) (kind : String)
  | unknownDirective (directive : Char) (index : Nat)
  | incompleteDirective
  | incompleteName
  /-- A template names arguments that were not given by name. -/
  | unnamedArguments
  /-- A template takes a width from a value that is no integer. -/
  | widthNotInteger
  /-- A template takes a width or a precision from a number that is too large for that. -/
  | countOverflow (word : String)
  /-- A template gives a width or a precision that is too large. -/
  | countTooBig (word : String)
  | notACharacter
  | noSuchCharacter
  | notADecimal (kind : String)
  | decimalOverflow
  | noSuchField (name : Json)
  | fieldlessTemplate (template : String)
  /-- A definition that contains itself, or a publication that causes itself, has no end. -/
  | endless
  | emptyQueue
deriving Repr, Inhabited

namespace ValueFault

def kind : ValueFault → FaultKind
  | missingKey _ => .missingKey
  | badInteger .. | badByteInteger _ | badYear _ | badMonth | badDay | badTimePart .. | badOffset _
  | notAPair .. | notHexadecimal _ | badHexByte _ | unknownDirective ..
  | incompleteDirective | incompleteName | countTooBig _ | fieldlessTemplate _ | noSuchField _ => .badValue
  | noMember .. => .missingMember
  | divisionByZero => .zeroDivision
  | indexOutOfRange => .badIndex
  | endless => .recursion
  | emptyQueue => .emptyQueue
  | infinite | noSuchCharacter | countOverflow _ | decimalOverflow => .overflow
  | notANumber _ | notANumeral | notIterable _ | notReversible _ | notSubscriptable _
  | notHashable _ | noLength _ | notMatchable _ | notOrdered .. | notComparable .. | mixedOffsets | listIndex | textIndex
  | notATextItem .. | notASequence _ | duplicateArgument _ | tooFewArguments | tooManyArguments
  | notAReal .. | notAnInteger .. | unnamedArguments | widthNotInteger | notACharacter
  | notADecimal _ => .wrongType

def message : ValueFault → String
  | missingKey key => key.literal
  | badInteger text base =>
    s!"invalid literal for int() with base {base}: " ++ String.ofList ((quoted text).toList.take 200)
  | badByteInteger literal =>
    "invalid literal for int() with base 10: " ++ String.ofList (literal.toList.take 200)
  | notANumber kind =>
    s!"int() argument must be a string, a bytes-like object or a real number, not '{kind}'"
  | notANumeral => "int() can't convert non-string with explicit base"
  | infinite => "cannot convert float infinity to integer"
  | noMember kind member => s!"'{kind}' object has no attribute '{member}'"
  | notIterable kind => s!"'{kind}' object is not iterable"
  | notReversible kind => s!"'{kind}' object is not reversible"
  | notSubscriptable kind => s!"'{kind}' object is not subscriptable"
  | notHashable kind => s!"unhashable type: '{kind}'"
  | noLength kind => s!"object of type '{kind}' has no len()"
  | notMatchable kind => s!"expected string or bytes-like object, got '{kind}'"
  | notOrdered left right => s!"'<' not supported between instances of '{left}' and '{right}'"
  | notComparable left right => s!"can't compare {left} to {right}"
  | mixedOffsets => "can't compare offset-naive and offset-aware datetimes"
  | listIndex => "list indices must be integers or slices, not str"
  | textIndex => "string indices must be integers, not 'str'"
  | notATextItem index kind => s!"sequence item {index}: expected str instance, {kind} found"
  | notAPair index length =>
    s!"dictionary update sequence element #{index} has length {length}; 2 is required"
  | notASequence index => s!"cannot convert dictionary update sequence element #{index} to a sequence"
  | divisionByZero => "integer division or modulo by zero"
  | indexOutOfRange => "list index out of range"
  | badYear year => s!"year {year} is out of range"
  | badMonth => "month must be in 1..12"
  | badDay => "day is out of range for month"
  | badTimePart name most => s!"{name} must be in 0..{most}"
  | badOffset literal =>
    "offset must be a timedelta strictly between -timedelta(hours=24) and " ++
      s!"timedelta(hours=24), not {literal}."
  | notHexadecimal text => "when sending a str, it must be a hex string. Got: " ++ quoted text
  | badHexByte position => s!"non-hexadecimal number found in fromhex() arg at position {position}"
  | duplicateArgument name => s!"format_error_json() got multiple values for argument '{name}'"
  | tooFewArguments => "not enough arguments for format string"
  | tooManyArguments => "not all arguments converted during string formatting"
  | notAReal directive kind => s!"%{directive} format: a real number is required, not {kind}"
  | notAnInteger directive kind => s!"%{directive} format: an integer is required, not {kind}"
  | unknownDirective directive index =>
    let shown := if 31 ≤ directive.toNat && directive.toNat ≤ 126 then directive else '?'
    s!"unsupported format character '{shown}' (0x" ++
      String.ofList (Text.hexDigits directive.toNat) ++ s!") at index {index}"
  | incompleteDirective => "incomplete format"
  | incompleteName => "incomplete format key"
  | unnamedArguments => "format requires a mapping"
  | widthNotInteger => "* wants int"
  | countOverflow word =>
    "Python int too large to convert to C " ++ (if word = "width" then "ssize_t" else "int")
  | countTooBig word => word ++ " too big"
  | notACharacter => "%c requires int or char"
  | noSuchCharacter => "%c arg not in range(0x110000)"
  | notADecimal kind => s!"must be real number, not {kind}"
  | decimalOverflow => "int too large to convert to float"
  | noSuchField name => "Formatting field not found in record: " ++ name.literal
  | fieldlessTemplate template => s!"Invalid format '{template}' for '%' style"
  | endless => "maximum recursion depth exceeded"
  | emptyQueue => ""

end ValueFault

/-- A fault of the debugger, by its cause. -/
inductive Fault where
  | traceNotLoaded
  | traceAlreadyLoaded
  | invalidStep (index : Int) (reason : String)
  | malformedEntry (position : Nat) (part reason : String)
  | unknownJump (position : Nat) (jump : String)
  | malformedSpan (text : String)
  | malformedBytecode (contract reason : String)
  | notATree
  | nodeNotFound (reference : String)
  | untypedDeclaration (id : String)
  | unsupportedElementary (name : String)
  | unresolvedType (reference : String)
  | unsupportedDefinition (kind : String)
  | unsupportedType (nodeType : String)
  | unknownCommand (command : String)
  | commandInProgress (command running : String)
  /-- Settings that do not exist, from that file if one is known. -/
  | unknownSettings (names : List String) (file : Option String)
  | badSetting (name value : String) (file : Option String)
  | unknownLevel (name : String)
  | negativeDepth
  | notAMapping (file : String)
  | missingFile (file : String)
  | malformedDocument (file : String)
  | unfit (cause : ValueFault)
deriving Repr, Inhabited

namespace Fault

def kind : Fault → FaultKind
  | traceNotLoaded => .traceNotLoaded
  | traceAlreadyLoaded => .runtime
  | invalidStep .. => .invalidStep
  | malformedEntry .. | unknownJump .. | malformedSpan _ | malformedBytecode .. => .sourceMap
  | notATree | untypedDeclaration _ | unsupportedElementary _ | unresolvedType _
  | unsupportedDefinition _ | unsupportedType _ => .tree
  | nodeNotFound _ => .nodeNotFound
  | unknownCommand _ => .unknownCommand
  | commandInProgress .. => .commandInProgress
  | unknownSettings .. | badSetting .. | unknownLevel _ | negativeDepth | notAMapping _
  | missingFile _ | malformedDocument _ => .settings
  | unfit cause => cause.kind

def message : Fault → String
  | traceNotLoaded => "No trace has been loaded"
  | traceAlreadyLoaded => "A trace is already loaded; start a new session"
  | invalidStep index reason => s!"Invalid trace step {index}: {reason}"
  | malformedEntry position part reason => s!"Malformed srcmap entry #{position} '{part}': {reason}"
  | unknownJump position jump => s!"Unknown jump type '{jump}' in srcmap entry #{position}"
  | malformedSpan text => s!"Malformed src attribute '{text}'"
  | malformedBytecode contract reason => s!"Invalid runtime bytecode for {contract}: {reason}"
  | notATree => "AST root must be a node object with a nodeType"
  | nodeNotFound reference => s!"AST node not found: {reference}"
  | untypedDeclaration id => s!"Declaration {id} has no typeName"
  | unsupportedElementary name => s!"Unsupported elementary type '{name}'"
  | unresolvedType reference => s!"Unresolved type reference {reference}"
  | unsupportedDefinition kind => s!"Unsupported user-defined type {kind}"
  | unsupportedType nodeType => s!"Unsupported type name node '{nodeType}'"
  | unknownCommand command => s!"Unknown control command: {command}"
  | commandInProgress command running => s!"Cannot run {command}: {running} is still running"
  | unknownSettings names _ => "Unknown configuration keys: " ++ String.intercalate ", " names
  | badSetting name value _ => s!"Invalid value for {name}: {value}"
  | unknownLevel name => s!"Unknown log level '{name}'"
  | negativeDepth => "initial_function_depth must not be negative"
  | notAMapping _ => "Configuration must be a mapping"
  | missingFile _ => "Configuration file not found"
  | malformedDocument _ => "Invalid YAML"
  | unfit cause => cause.message

/-- The file that settings came from; an empty name is none. -/
def fileDetails : Option String → List (String × Json)
  | some file => if file = "" then [] else [("config_file", .str file)]
  | none => []

/-- What a report adds to the wording. -/
def details : Fault → List (String × Json)
  | invalidStep index reason => [("step_index", .int index), ("reason", .str reason)]
  | malformedEntry position .. => [("entry", .int position)]
  | unknownJump position _ => [("entry", .int position)]
  | malformedSpan text => if text = "" then [] else [("source", .str text)]
  | malformedBytecode contract _ => if contract = "" then [] else [("source", .str contract)]
  | nodeNotFound reference => [("reference", .str reference)]
  | unknownCommand command => [("command", .str command)]
  | commandInProgress command running => [("command", .str command), ("running", .str running)]
  | unknownSettings _ file | badSetting _ _ file => fileDetails file
  | notAMapping file | missingFile file | malformedDocument file => fileDetails (some file)
  | _ => []

end Fault

end TraceDebugger
