/-
The kinds of faults, their names and their place in the hierarchy.

The debugger's own kinds stand under one general kind; the others say that a value did not fit.  A
name that belongs to no kind is kept as it is (`name_ofName`).
-/
import TraceDebugger.Text.Named

namespace TraceDebugger

inductive FaultKind where
  | general
  | trace
  | traceNotLoaded
  | invalidStep
  | parse
  | sourceMap
  | tree
  | nodeNotFound
  | unknownCommand
  | commandInProgress
  | settings
  | badValue
  | wrongType
  | missingKey
  | missingMember
  | badIndex
  | zeroDivision
  | overflow
  | runtime
  | recursion
  | emptyQueue
  /-- A kind from elsewhere, by its name. -/
  | other (name : String)
deriving DecidableEq, Repr

namespace FaultKind

def name : FaultKind → String
  | general => "SolstepError"
  | trace => "TraceError"
  | traceNotLoaded => "TraceNotLoadedError"
  | invalidStep => "InvalidStepError"
  | parse => "ParseError"
  | sourceMap => "SourceMapParseError"
  | tree => "ASTError"
  | nodeNotFound => "NodeNotFoundError"
  | unknownCommand => "UnknownCommandError"
  | commandInProgress => "CommandInProgressError"
  | settings => "ConfigError"
  | badValue => "ValueError"
  | wrongType => "TypeError"
  | missingKey => "KeyError"
  | missingMember => "AttributeError"
  | badIndex => "IndexError"
  | zeroDivision => "ZeroDivisionError"
  | overflow => "OverflowError"
  | runtime => "RuntimeError"
  | recursion => "RecursionError"
  | emptyQueue => "QueueEmpty"
  | other name => name

/-- The kind above one of the debugger's own kinds. -/
def parent? : FaultKind → Option FaultKind
  | trace => some general
  | traceNotLoaded => some trace
  | invalidStep => some trace
  | parse => some general
  | sourceMap => some parse
  | tree => some parse
  | nodeNotFound => some tree
  | unknownCommand => some general
  | commandInProgress => some general
  | settings => some general
  | _ => none

/-- The kind is one of the debugger's own. -/
def isOwn (kind : FaultKind) : Bool := kind = general || kind.parent?.isSome

/-- How far below the general kind a kind stands. -/
def rank : FaultKind → Nat
  | nodeNotFound => 3
  | traceNotLoaded | invalidStep | sourceMap | tree => 2
  | trace | parse | unknownCommand | commandInProgress | settings => 1
  | _ => 0

theorem rank_parent? {kind above : FaultKind} (h : kind.parent? = some above) :
    above.rank < kind.rank := by
  cases kind <;> simp [parent?] at h <;> subst h <;> decide

/-- The kind and those above it, nearest first. -/
def lineage (kind : FaultKind) : List FaultKind :=
  match _h : kind.parent? with
  | none => [kind]
  | some above => kind :: above.lineage
termination_by kind.rank
decreasing_by exact rank_parent? (by assumption)

def named : List FaultKind :=
  [general, trace, traceNotLoaded, invalidStep, parse, sourceMap, tree, nodeNotFound,
    unknownCommand, commandInProgress, settings, badValue, wrongType, missingKey, missingMember,
    badIndex, zeroDivision, overflow, runtime, recursion, emptyQueue]

def ofName (text : String) : FaultKind :=
  (Text.named? name named text).getD (other text)

theorem name_ofName (text : String) : (ofName text).name = text :=
  Text.name_getD_named? (fun _ => rfl) text

theorem ofName_name {kind : FaultKind} (h : kind ∈ named) : ofName kind.name = kind := by
  rw [ofName, Text.named?_name (by decide) h, Option.getD_some]

end FaultKind

end TraceDebugger
