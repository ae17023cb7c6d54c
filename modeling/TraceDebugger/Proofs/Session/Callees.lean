/-
External calls and the depth of functions.

A step over the source watches the depth of functions alone, and an external call changes that depth
by the jumps of its callee alone.  So a step over can come to rest inside a callee, and a callee
that halts in the middle of a function leaves the depth changed.

* `At.rests_stepOver` — a step over ends at the end of the trace, or out of the function, or on
  another line of it;
* `stepOver_depths` — where a step over rests, and when the call stack is deeper there;
* `callee_depths` — the call stack and the depth of functions after a call has returned.
-/
import TraceDebugger.Proofs.Session.Visits

namespace TraceDebugger

namespace Session

variable {start : Workbench} {base base' : Base} {ticket ticket' : Ticket}
  {origin here session : Session}

/-! ### A run in which a contract calls itself -/

/-- A contract that calls itself on its first line; its second instruction may be a jump into a
function. -/
def outwardProgram (jump : Jump) : Program :=
  ⟨{ name := "Outward"
     sources := [⟨18, [0, 6, 12]⟩]
     entries := [⟨0, 5, 0, .regular, 0⟩, ⟨6, 5, 0, jump, 0⟩, ⟨12, 5, 0, .regular, 0⟩]
     instructionAt := [(0, 0), (1, 1), (2, 2)] }, []⟩

/-- The steps of a run in which the contract halts in the call right after that instruction. -/
def outwardSteps : List Step :=
  [{ pc := 0, op := "CALL", stack := some ["a1", "ffff"] }, { pc := 1, op := "JUMP", depth := 2 },
    { pc := 2, op := "STOP", depth := 2 }, { pc := 2, op := "STOP" }]

/-- A session that has loaded that run. -/
def outward (jump : Jump) : Session :=
  ((new { fallback := some (outwardProgram jump) } none 1).perform
    (.load outwardSteps (some "0x00000000000000000000000000000000000000a1") none)).1

theorem loaded_outward (jump : Jump) : Loaded (outward jump) :=
  loaded_of_callTargets rfl _ _ _ _

/-! ### Resting inside a callee -/

/-- A step over ends at the end of the trace, or out of the function, or on another line of it. -/
theorem At.rests_stepOver (hs : Outset start) (h : At start base ticket session)
    (hc : session.cursor = 0) (h' : At start base' ticket' here) :
    here.landing .stepOver = session.traceLength ∨
      (here.carryOut .stepOver).1.bench.functionDepth < here.bench.functionDepth ∨
      (here.carryOut .stepOver).1.bench.functionDepth = here.bench.functionDepth ∧
        SourceRange.sameLine (session.rangeAt (here.landing .stepOver))
          (session.rangeAt here.cursor) = false := by
  obtain ⟨hdepth, -⟩ := h.reads hs hc h'
  obtain ⟨-, count, hvisited, hmet, -⟩ := h.firstVisited hs hc h' .stepOver
    (by rw [Workbench.pursuitOf, hdepth])
  obtain ⟨-, -, -, _, _, -, -, -, hnext, -⟩ := h'.carryOut hs .stepOver
  obtain ⟨hrange, -⟩ := h.view_readings hs (here.landing .stepOver)
  rw [(h.depths hs hc h').2, (h.depths hs hc hnext).2]
  exact hmet.imp_right (Workbench.walksOn_over_iff hrange).mp

/-- **Where a step over rests.**  Whatever has been asked of a session since it loaded a trace whose
steps are processed, a step over that ends before the end of the trace has left the function, or has
come to another line at the same depth of functions; how deep the call stack is makes no difference.
The call stack is deeper there than at the start exactly if the step has come to rest inside a call
that was made on the way from the depth of the start and has not returned. -/
theorem stepOver_depths (hl : Loaded origin) (hp : origin.Processes) (ho : Onward origin here)
    (hi : here.caller = .idle) (hw : here.store.tripwires = []) :
    (here.landing .stepOver < origin.traceLength →
      (here.carryOut .stepOver).1.bench.functionDepth < here.bench.functionDepth ∨
      (here.carryOut .stepOver).1.bench.functionDepth = here.bench.functionDepth ∧
        SourceRange.sameLine (origin.rangeAt (here.landing .stepOver))
          (origin.rangeAt here.cursor) = false) ∧
    (here.bench.slices.callStack.depth
        < (here.carryOut .stepOver).1.bench.slices.callStack.depth ↔
      ∃ call, here.cursor ≤ call ∧
        (origin.stackAt call).depth = here.bench.slices.callStack.depth ∧
        origin.OpenAt call (here.landing .stepOver)) := by
  obtain ⟨start, base₀, ticket₀, base, ticket, hs, hat₀, hcursor, hat⟩ :=
    ho.exists_both_at hl hp hi hw
  obtain ⟨-, -, -, base', ticket', -, -, -, hnext, -⟩ := hat.carryOut hs .stepOver
  -- the depth of the call stack is read off the trace at both ends of the step
  obtain ⟨hstack, -⟩ := hat₀.depths hs hcursor hat
  obtain ⟨hstack', -⟩ := hat₀.depths hs hcursor hnext
  refine ⟨fun hlt => ?_, ?_⟩
  · exact (hat₀.rests_stepOver hs hcursor hat).resolve_left (Nat.ne_of_lt hlt)
  · obtain ⟨hle, hle'⟩ := At.landing_bounds hs hat₀ hat .stepOver
    rw [hstack, hstack']
    exact depth_lt_iff hl hp hle hle'

/-- That run is processed to its end, and the step over from its start ends one call deeper. -/
theorem run_outward_regular :
    (outward .regular).Processes ∧ (outward .regular).store.tripwires = [] ∧
      (outward .regular).landing .stepOver < (outward .regular).traceLength ∧
      (outward .regular).bench.slices.callStack.depth = 1 ∧
      ((outward .regular).carryOut .stepOver).1.bench.slices.callStack.depth = 2 := by
  decide +kernel

/-- The step over of a contract that calls itself rests inside the callee. -/
theorem outward_stepOver_deeper :
    Loaded (outward .regular) ∧ (outward .regular).Processes ∧
      (outward .regular).landing .stepOver < (outward .regular).traceLength ∧
      ¬ ((outward .regular).carryOut .stepOver).1.bench.slices.callStack.depth
        ≤ (outward .regular).bench.slices.callStack.depth := by
  obtain ⟨hprocesses, -, hlands, hdepth, hdeeper⟩ := run_outward_regular
  refine ⟨loaded_outward _, hprocesses, hlands, ?_⟩
  rw [hdepth, hdeeper]
  decide

theorem outward_stepOver_depths :
    Loaded (outward .regular) ∧ (outward .regular).Processes ∧
      Onward (outward .regular) (outward .regular) ∧ (outward .regular).caller = .idle ∧
      (outward .regular).store.tripwires = [] ∧
      ∃ call, (outward .regular).cursor ≤ call ∧
        ((outward .regular).stackAt call).depth
          = (outward .regular).bench.slices.callStack.depth ∧
        (outward .regular).OpenAt call ((outward .regular).landing .stepOver) := by
  have hl := loaded_outward .regular
  obtain ⟨hprocesses, hwired, -, hdepth, hdeeper⟩ := run_outward_regular
  have hlt : (outward .regular).bench.slices.callStack.depth
      < ((outward .regular).carryOut .stepOver).1.bench.slices.callStack.depth := by
    rw [hdepth, hdeeper]
    decide
  exact ⟨hl, hprocesses, .origin, hl.idle, hwired,
    (stepOver_depths hl hprocesses .origin hl.idle hwired).2.mp hlt⟩

/-! ### Returning from a callee -/

/-- **What an external call leaves.**  A call or a deployment that returns leaves the call stack as
it found it.  Unless it jumps itself, it has changed the depth of functions by the jumps of its
callee alone.  A depth that is not negative is found again exactly if these jumps add up to zero and
never lead below zero, or if they lead below zero and climb by just that depth after their lowest
point. -/
theorem callee_depths (hl : Loaded session) (hp : session.Processes) {call last : Nat}
    (h : session.Returns call last) (hcall : (session.jumpAt call).delta = 0)
    (hlast : (session.jumpAt last).delta = 0) :
    session.stackAt (last + 1) = session.stackAt call ∧
    session.functionDepthAt (last + 1)
      = (session.jumpsFrom (call + 1) last).foldl Jump.leap (session.functionDepthAt call) ∧
    (0 ≤ session.functionDepthAt call →
      ∃ lowest, IsLeast (session.climb (call + 1) '' Set.Icc (call + 1) last) lowest ∧
        (session.functionDepthAt (last + 1) = session.functionDepthAt call ↔
          session.climb (call + 1) last = min 0 (session.functionDepthAt call + lowest))) := by
  obtain ⟨step, hstep, -⟩ := h.halts
  obtain ⟨hbefore, -⟩ := List.getElem?_eq_some_iff.mp hstep
  have hbefore : last < session.traceLength := hbefore
  have hlt : call + 1 ≤ last := h.isOpen.1
  -- neither the call nor the return moves the depth of functions
  have hentered : session.functionDepthAt (call + 1) = session.functionDepthAt call := by
    obtain ⟨-, -, -, hdepth⟩ := exists_moves hl hp (Nat.lt_trans hlt hbefore)
    rw [hdepth, Jump.leap_of_delta hcall]
  have hreturned : session.functionDepthAt (last + 1) = session.functionDepthAt last := by
    obtain ⟨-, -, -, hdepth⟩ := exists_moves hl hp hbefore
    rw [hdepth, Jump.leap_of_delta hlast]
  refine ⟨h.stackAt_succ hl hp, ?_, fun hnonneg => ?_⟩
  · rw [hreturned, functionDepthAt_leaps hl hp hlt (Nat.le_of_lt hbefore), hentered]
  · rw [← hentered] at hnonneg ⊢
    obtain ⟨lowest, hlowest, hdepth⟩ :=
      exists_functionDepthAt hl hp hlt (Nat.le_of_lt hbefore) hnonneg
    refine ⟨lowest, hlowest, ?_⟩
    rw [hreturned, hdepth]
    constructor <;> intro heq <;> omega

/-- A run whose second instruction jumps into a function is processed to its end: it halts one call
deeper and leaves the depth of functions changed. -/
theorem run_outward_into :
    (outward .into).Processes ∧
      (((outward .into).stackAt 0).depth = 1 ∧ ((outward .into).stackAt 1).depth = 2 ∧
        ((outward .into).stackAt 2).depth = 2) ∧
      ((outward .into).jumpAt 0).delta = 0 ∧ ((outward .into).jumpAt 2).delta = 0 ∧
      (outward .into).functionDepthAt 3 ≠ (outward .into).functionDepthAt 0 := by
  decide +kernel

/-- The first call of a run that halts inside a function returns from there. -/
theorem returns_outward_into : (outward .into).Returns 0 2 := by
  obtain ⟨-, ⟨hzero, hone, htwo⟩, -⟩ := run_outward_into
  have henters : ∃ step, (outward .into).bench.recording.steps[0]? = some step ∧
      step.enters = true := ⟨_, rfl, rfl⟩
  refine ⟨⟨by decide, henters, fun other hpos hle => ?_⟩, by rw [hzero, htwo], ⟨_, rfl, rfl⟩⟩
  obtain rfl | rfl : other = 1 ∨ other = 2 := by omega
  · rw [hzero, hone]
    decide
  · rw [hzero, htwo]
    decide

/-- A call that halts inside a function does not leave the depth of functions as it found it. -/
theorem outward_callee_deeper :
    Loaded (outward .into) ∧ (outward .into).Processes ∧ (outward .into).Returns 0 2 ∧
      ((outward .into).jumpAt 0).delta = 0 ∧ ((outward .into).jumpAt 2).delta = 0 ∧
      (outward .into).functionDepthAt 3 ≠ (outward .into).functionDepthAt 0 := by
  obtain ⟨hprocesses, -, hcall, hlast, hdeeper⟩ := run_outward_into
  exact ⟨loaded_outward _, hprocesses, returns_outward_into, hcall, hlast, hdeeper⟩

theorem outward_callee_depths :
    Loaded (outward .into) ∧ (outward .into).Processes ∧ (outward .into).Returns 0 2 ∧
      ((outward .into).jumpAt 0).delta = 0 ∧ ((outward .into).jumpAt 2).delta = 0 ∧
      (outward .into).stackAt 3 = (outward .into).stackAt 0 ∧
      (outward .into).functionDepthAt 3
        = ((outward .into).jumpsFrom 1 2).foldl Jump.leap ((outward .into).functionDepthAt 0) := by
  obtain ⟨hprocesses, -, hcall, hlast, -⟩ := run_outward_into
  obtain ⟨hstack, hdepth, -⟩ := callee_depths (loaded_outward .into) hprocesses
    returns_outward_into hcall hlast
  exact ⟨loaded_outward _, hprocesses, returns_outward_into, hcall, hlast, hstack, hdepth⟩

end Session

end TraceDebugger
