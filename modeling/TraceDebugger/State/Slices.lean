/-
The state of the debugger in four slices: the recorded trace, the call stack, the bindings of
variables and the depth of function calls.

A slice changes only by `reduce`, which takes an event.  Slices are reduced in the order of their
registration; if one of them fails, those before it stay changed.
-/
import TraceDebugger.State.Recording

namespace TraceDebugger

def CallStack.reduce (event : Event) (stack : CallStack) : Except Fault CallStack :=
  match event.kind with
  | .saveSteps => .ok {}
  | .call => (Event.need "address" event.payload.address).map fun address =>
      stack.push address none
  | .create => (Event.need "binary" event.payload.binary).map fun binary => stack.push none binary
  | .returnCall => .ok stack.pop
  | _ => .ok stack

/-- Where the variables of each tree live. -/
structure Bindings where
  trees : List (TreeId × Locations) := []
deriving DecidableEq, Repr, Inhabited

namespace Bindings

def ofTree (bindings : Bindings) (treeId : TreeId) : Locations :=
  (SyntaxTree.valueOf? treeId bindings.trees).getD []

def assign (treeId : TreeId) (locations : Locations) (bindings : Bindings) : Bindings :=
  { trees := SyntaxTree.setEntry treeId ((bindings.ofTree treeId).update locations) bindings.trees }

/-- The bindings after an event.  A tree that is named without locations is entered all the same. -/
def reduce (event : Event) (bindings : Bindings) : Bindings × Option Fault :=
  match event.kind with
  | .saveSteps => ({}, none)
  | .assign =>
    match Event.need "tree_id" event.payload.treeId with
    | .error fault => (bindings, some fault)
    | .ok treeId =>
      match Event.need "assignments" event.payload.assignments with
      | .error fault => (bindings.assign treeId [], some fault)
      | .ok locations => (bindings.assign treeId locations, none)
  | _ => (bindings, none)

end Bindings

/-- How many function calls of the source language are under way, and how many there are at the
start of a trace. -/
structure FunctionDepth where
  initial : Int := 1
  depth : Int := 1
deriving DecidableEq, Repr, Inhabited

/-- The depth after an event; it does not fall below zero. -/
def FunctionDepth.reduce (event : Event) (state : FunctionDepth) : Except Fault FunctionDepth :=
  match event.kind with
  | .saveSteps => .ok { state with depth := state.initial }
  | .jump => (Event.need "delta" event.payload.delta).map fun delta =>
      { state with depth := max 0 (state.depth + delta) }
  | _ => .ok state

inductive SliceName where
  | recording
  | callStack
  | bindings
  | functionDepth
deriving DecidableEq, Repr, Inhabited

structure Slices where
  recording : Recording := .empty
  callStack : CallStack := {}
  bindings : Bindings := {}
  functionDepth : FunctionDepth := {}
deriving Inhabited

namespace Slices

/-- Keep the slices if a change of one of them failed. -/
def orKeep {α : Type} (slices : Slices) (change : α → Slices) :
    Except Fault α → Slices × Option Fault
  | .ok slice => (change slice, none)
  | .error fault => (slices, some fault)

def reduceOne (event : Event) (slices : Slices) : SliceName → Slices × Option Fault
  | .recording =>
    slices.orKeep (fun recording => { slices with recording }) (slices.recording.reduce event)
  | .callStack =>
    slices.orKeep (fun callStack => { slices with callStack }) (slices.callStack.reduce event)
  | .bindings =>
    let (bindings, fault) := slices.bindings.reduce event
    ({ slices with bindings }, fault)
  | .functionDepth =>
    slices.orKeep (fun functionDepth => { slices with functionDepth })
      (slices.functionDepth.reduce event)

/-- The slices after the named ones have taken an event in that order, up to the first failure. -/
def reduce (event : Event) (slices : Slices) : List SliceName → Slices × Option Fault
  | [] => (slices, none)
  | name :: rest =>
    match slices.reduceOne event name with
    | (slices, none) => slices.reduce event rest
    | (slices, some fault) => (slices, some fault)

end Slices

end TraceDebugger
