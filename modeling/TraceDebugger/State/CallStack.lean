/-
The call stack.

A frame says who executes: the contract at an address, or the code under deployment.  The depth of a
frame is its place in the stack, the outermost frame having depth one.
-/

namespace TraceDebugger

/-- An entry of the call stack. -/
structure Frame where
  address : Option String := none
  binary : Option String := none
  depth : Nat := 0
deriving DecidableEq, Repr, Inhabited

/-- The frames of the calls under way, innermost first. -/
structure CallStack where
  frames : List Frame := []
deriving DecidableEq, Repr, Inhabited

namespace CallStack

def depth (stack : CallStack) : Nat := stack.frames.length

/-- The innermost frame; an empty one when nothing executes. -/
def current (stack : CallStack) : Frame := stack.frames.headD {}

def push (address binary : Option String) (stack : CallStack) : CallStack :=
  { frames := { address, binary, depth := stack.depth + 1 } :: stack.frames }

/-- Leave the innermost call, if there is one. -/
def pop (stack : CallStack) : CallStack := { frames := stack.frames.tail }

@[simp] theorem depth_push (address binary : Option String) (stack : CallStack) :
    (stack.push address binary).depth = stack.depth + 1 := rfl

@[simp] theorem depth_pop (stack : CallStack) : stack.pop.depth = stack.depth - 1 := by
  simp [pop, depth]

@[simp] theorem pop_push (address binary : Option String) (stack : CallStack) :
    (stack.push address binary).pop = stack := rfl

end CallStack

end TraceDebugger
