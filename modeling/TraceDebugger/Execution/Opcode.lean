/-
The opcode classes that stepping and the call stack depend on.

Nothing of an opcode's meaning is kept beyond its class; the classes are pairwise disjoint
(`not_isCall_of_isHalting` and its companions).
-/

namespace TraceDebugger.Opcode

def isJump (op : String) : Bool := op == "JUMP" || op == "JUMPI"

/-- Calls into other code. -/
def isCall (op : String) : Bool :=
  op == "CALL" || op == "CALLCODE" || op == "DELEGATECALL" || op == "STATICCALL"

def isCreate (op : String) : Bool := op == "CREATE" || op == "CREATE2"

/-- Ends of a call frame. -/
def isHalting (op : String) : Bool :=
  op == "STOP" || op == "RETURN" || op == "REVERT" || op == "INVALID" || op == "SELFDESTRUCT"
    || op == "SUICIDE"

/-- Calls whose targets are announced when a trace is loaded. -/
def announcesTarget (op : String) : Bool := op == "CALL" || op == "DELEGATECALL"

theorem isCall_of_announcesTarget {op : String} (h : announcesTarget op = true) :
    isCall op = true := by
  simp only [announcesTarget, isCall, Bool.or_eq_true] at *
  rcases h with h | h <;> simp [h]

theorem not_isCall_of_isHalting {op : String} (h : isHalting op = true) : isCall op = false := by
  simp only [isHalting, Bool.or_eq_true, beq_iff_eq] at h
  rcases h with ((((rfl | rfl) | rfl) | rfl) | rfl) | rfl <;> decide

theorem not_isCreate_of_isHalting {op : String} (h : isHalting op = true) :
    isCreate op = false := by
  simp only [isHalting, Bool.or_eq_true, beq_iff_eq] at h
  rcases h with ((((rfl | rfl) | rfl) | rfl) | rfl) | rfl <;> decide

theorem not_isCreate_of_isCall {op : String} (h : isCall op = true) : isCreate op = false := by
  simp only [isCall, Bool.or_eq_true, beq_iff_eq] at h
  rcases h with ((rfl | rfl) | rfl) | rfl <;> decide

end TraceDebugger.Opcode
