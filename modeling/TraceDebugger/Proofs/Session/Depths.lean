/-
How deep a trace is at its positions, in calls and in functions of the source language.

A step moves the call stack by its opcode alone and the depth of functions by its jump alone.

* `exists_frameStep`, `exists_moves` — what one step makes of the two;
* `depth_lt_iff` — the call stack gets deeper only inside a call that has not returned;
* `Returns.stackAt_succ` — a call leaves the call stack as it found it;
* `functionDepthAt_leaps`, `exists_functionDepthAt` — the depth of functions after some steps, from
  their jumps.
-/
import TraceDebugger.Proofs.Session.Chronicle
import Mathlib.Algebra.BigOperators.Intervals
import Mathlib.Order.Bounds.Basic

namespace TraceDebugger

/-! ### Moves -/

/-- The depth of functions after a step with a jump; a jump does not lead below zero. -/
def Jump.leap (depth : Int) : Jump → Int
  | .into => max 0 (depth + 1)
  | .out => max 0 (depth - 1)
  | _ => depth

theorem Jump.leap_of_nonneg {depth : Int} (h : 0 ≤ depth) (jump : Jump) :
    jump.leap depth = max 0 (depth + jump.delta) := by
  cases jump with
  | into => rfl
  | out => rfl
  | regular => show depth = max 0 (depth + 0); omega
  | other mark => show depth = max 0 (depth + 0); omega

theorem Jump.leap_of_delta {jump : Jump} (h : jump.delta = 0) (depth : Int) :
    jump.leap depth = depth := by
  cases jump with
  | into => cases h
  | out => cases h
  | regular => rfl
  | other mark => rfl

/-- A step enters a frame, by a call or a deployment. -/
def Step.enters (step : Step) : Bool := Opcode.isCall step.op || Opcode.isCreate step.op

/-- What a step may make of the call stack. -/
inductive Step.Moves (step : Step) (stack : CallStack) : CallStack → Prop
  | enter (address binary : Option String) (h : step.enters = true) :
      Moves step stack (stack.push address binary)
  | leave (h : Opcode.isHalting step.op = true) : Moves step stack stack.pop
  | stay (henters : step.enters = false) (hhalting : Opcode.isHalting step.op = false) :
      Moves step stack stack

namespace Step.Moves

variable {step : Step} {stack next : CallStack}

/-- A step that deepens the call stack enters a frame, and only one. -/
theorem enters_of_lt (h : step.Moves stack next) (hlt : stack.depth < next.depth) :
    step.enters = true ∧ next.depth = stack.depth + 1 := by
  cases h with
  | enter address binary h => exact ⟨h, rfl⟩
  | leave h => rw [CallStack.depth_pop] at hlt; omega
  | stay henters hhalting => exact absurd hlt (Nat.lt_irrefl _)

/-- The frames of before stand below the one that is entered. -/
theorem isSuffix_of_lt (h : step.Moves stack next) (hlt : stack.depth < next.depth) :
    stack.frames <:+ next.frames := by
  cases h with
  | enter address binary h => exact List.suffix_cons _ _
  | leave h => rw [CallStack.depth_pop] at hlt; omega
  | stay henters hhalting => exact List.suffix_refl _

/-- A halting step leaves the innermost frame. -/
theorem eq_pop (h : step.Moves stack next) (hhalting : Opcode.isHalting step.op = true) :
    next = stack.pop := by
  have hcall := Opcode.not_isCall_of_isHalting hhalting
  have hcreate := Opcode.not_isCreate_of_isHalting hhalting
  cases h with
  | enter address binary h =>
    rw [enters, hcall, hcreate] at h
    cases h
  | leave h => rfl
  | stay henters h =>
    rw [hhalting] at h
    cases h

/-- The frames below the innermost one stay. -/
theorem isSuffix {below : List Frame} (h : step.Moves stack next) (hb : below <:+ stack.frames)
    (hlt : below.length < stack.depth) : below <:+ next.frames := by
  cases h with
  | enter address binary h => exact hb.trans (List.suffix_cons _ _)
  | leave h =>
    obtain ⟨upper, hupper⟩ := hb
    cases upper with
    | nil =>
      obtain rfl : below = stack.frames := hupper
      exact absurd hlt (Nat.lt_irrefl _)
    | cons frame upper =>
      rw [CallStack.pop, ← hupper]
      exact List.suffix_append _ _
  | stay henters hhalting => exact hb

end Step.Moves

/-! ### One step -/

/-- What a step that is read makes of the call stack, with the frame that it enters. -/
inductive Workbench.FrameStep (bench : Workbench) (step : Step) (stack : CallStack) :
    CallStack → Prop
  | call {address : Option String} (h : Opcode.isCall step.op = true)
      (ha : bench.callAddress = .ok address) : FrameStep bench step stack (stack.push address none)
  | create {binary : Option String} (h : Opcode.isCreate step.op = true)
      (hb : bench.createBinary = .ok binary) : FrameStep bench step stack (stack.push none binary)
  | leave (h : Opcode.isHalting step.op = true) : FrameStep bench step stack stack.pop
  | stay (henters : step.enters = false) (hhalting : Opcode.isHalting step.op = false) :
      FrameStep bench step stack stack

theorem Step.enters_of_isCall {step : Step} (h : Opcode.isCall step.op = true) :
    step.enters = true := by
  rw [enters, h, Bool.true_or]

theorem Step.enters_of_isCreate {step : Step} (h : Opcode.isCreate step.op = true) :
    step.enters = true := by
  rw [enters, h, Bool.or_true]

theorem Workbench.FrameStep.moves {bench : Workbench} {step : Step} {stack next : CallStack}
    (h : bench.FrameStep step stack next) : step.Moves stack next := by
  cases h with
  | call h _ => exact .enter _ _ (Step.enters_of_isCall h)
  | create h _ => exact .enter _ _ (Step.enters_of_isCreate h)
  | leave h => exact .leave h
  | stay henters hhalting => exact .stay henters hhalting

namespace Slices

variable {bench : Workbench} {step : Step}

theorem after_eventsOfJump (slices : Slices) (jump : Jump) :
    slices.after (Workbench.eventsOfJump jump)
      = { slices with
          functionDepth := { slices.functionDepth with
            depth := jump.leap slices.functionDepth.depth } } := by
  cases jump <;> rfl

/-- The events that tell the frame of a step move the call stack and leave the depth of functions
alone. -/
theorem after_frameRead {frames : List Event} (h : bench.FrameRead step frames)
    (slices : Slices) :
    bench.FrameStep step slices.callStack (slices.after frames).callStack ∧
      (slices.after frames).functionDepth = slices.functionDepth := by
  cases h with
  | call h ha => exact ⟨.call h ha, rfl⟩
  | create h hb => exact ⟨.create h hb, rfl⟩
  | leave h => exact ⟨.leave h, rfl⟩
  | stay hcall hcreate hhalting =>
    refine ⟨.stay ?_ hhalting, rfl⟩
    rw [Step.enters, hcall, hcreate, Bool.or_false]

theorem after_variablesOf {bound : List Event} (h : Workbench.VariablesOf bench step bound)
    (slices : Slices) :
    (slices.after bound).callStack = slices.callStack ∧
      (slices.after bound).functionDepth = slices.functionDepth := by
  cases h <;> exact ⟨rfl, rfl⟩

theorem after_closing (bench : Workbench) (slices : Slices) :
    (slices.after [bench.closing]).callStack = slices.callStack ∧
      (slices.after [bench.closing]).functionDepth = slices.functionDepth := by
  rw [Workbench.closing]
  split <;> exact ⟨rfl, rfl⟩

end Slices

/-- A step moves the call stack by its opcode and the depth of functions by its jump. -/
theorem Workbench.moves_past {bench : Workbench} {step : Step} (h : bench.Poised)
    (hs : bench.step = some step) {events : List Event} (hp : bench.passage = .ok events) :
    ∃ jump, bench.jump = .ok jump ∧
      bench.FrameStep step bench.slices.callStack (bench.past events).slices.callStack ∧
      (bench.past events).functionDepth = jump.leap bench.functionDepth := by
  obtain ⟨jump, frames, bound, hjump, hframes, hbound, rfl⟩ := exists_answers h hs hp
  refine ⟨jump, hjump, ?_⟩
  -- the tick, the jump, the frame, the variables and the closing event, one after the other
  have hslices : (bench.past (.tick :: (eventsOfJump jump ++ frames ++ bound)
        ++ [bench.closing])).slices
      = (((((bench.slices.after [.tick]).after (eventsOfJump jump)).after frames).after bound).after
          [bench.closing]) := by
    show bench.slices.after _ = _
    rw [List.cons_append, Slices.after_cons, Slices.after_append, Slices.after_append,
      Slices.after_append]
  obtain ⟨hstack, hdepth⟩ := Slices.after_closing bench
    ((((bench.slices.after [.tick]).after (eventsOfJump jump)).after frames).after bound)
  obtain ⟨hstack', hdepth'⟩ := Slices.after_variablesOf (variablesOf_of_bindingEvents hs hbound)
    (((bench.slices.after [.tick]).after (eventsOfJump jump)).after frames)
  obtain ⟨hmoves, hdepth''⟩ := Slices.after_frameRead (frameRead_of_frameEvents hs hframes)
    ((bench.slices.after [.tick]).after (eventsOfJump jump))
  rw [Slices.after_eventsOfJump] at hstack hstack' hmoves hdepth hdepth' hdepth'' hslices
  rw [functionDepth, hslices, hstack, hstack', hdepth, hdepth', hdepth'']
  exact ⟨hmoves, rfl⟩

namespace Session

/-- The calls under way at a position. -/
def stackAt (session : Session) (position : Nat) : CallStack :=
  (session.viewAt position).slices.callStack

/-- How many functions of the source language are under way at a position. -/
def functionDepthAt (session : Session) (position : Nat) : Int :=
  (session.viewAt position).functionDepth

/-- The jump of the step at a position. -/
def jumpAt (session : Session) (position : Nat) : Jump :=
  (session.viewAt position).jump.toOption.getD .regular

variable {session : Session}

/-- What a step of a trace makes of the calls and of the functions under way. -/
theorem exists_frameStep (hl : Loaded session) (hp : session.Processes) {position : Nat}
    (hlt : position < session.traceLength) :
    ∃ step, session.bench.recording.steps[position]? = some step ∧
      (session.viewAt position).FrameStep step (session.stackAt position)
        (session.stackAt (position + 1)) ∧
      session.functionDepthAt (position + 1)
        = (session.jumpAt position).leap (session.functionDepthAt position) := by
  obtain ⟨step, events, h⟩ := exists_passage hl hp hlt
  obtain ⟨jump, hjump, hmoves, hdepth⟩ := Workbench.moves_past h.poised h.reads h.passage
  -- the state at the next position is what the step makes of the one before
  have hnext := Workbench.slices_congr h.next
  have hjumpAt : session.jumpAt position = jump := by
    rw [jumpAt, hjump]
    rfl
  refine ⟨step, h.isStep, ?_, ?_⟩
  · rw [stackAt, stackAt, hnext]
    exact hmoves
  · rw [functionDepthAt, functionDepthAt, Workbench.functionDepth, hnext, hjumpAt]
    exact hdepth

theorem exists_moves (hl : Loaded session) (hp : session.Processes) {position : Nat}
    (hlt : position < session.traceLength) :
    ∃ step, session.bench.recording.steps[position]? = some step ∧
      step.Moves (session.stackAt position) (session.stackAt (position + 1)) ∧
      session.functionDepthAt (position + 1)
        = (session.jumpAt position).leap (session.functionDepthAt position) := by
  obtain ⟨step, hstep, hframe, hdepth⟩ := exists_frameStep hl hp hlt
  exact ⟨step, hstep, hframe.moves, hdepth⟩

/-- The calls and the functions under way where a session has come to are those at its position. -/
theorem At.depths {start : Workbench} {base base' : Base} {ticket ticket' : Ticket} {here : Session}
    (hs : Outset start) (h : At start base ticket session) (hc : session.cursor = 0)
    (h' : At start base' ticket' here) :
    here.bench.slices.callStack = session.stackAt here.cursor ∧
      here.bench.functionDepth = session.functionDepthAt here.cursor := by
  have hslices := h.slices_eq hs hc h'
  rw [stackAt, functionDepthAt, Workbench.functionDepth, Workbench.functionDepth, hslices]
  exact ⟨rfl, rfl⟩

/-! ### Calls -/

/-- A step has entered a frame, and since then the call stack has been deeper than before it. -/
def OpenAt (session : Session) (call position : Nat) : Prop :=
  call < position ∧
    (∃ step, session.bench.recording.steps[call]? = some step ∧ step.enters = true) ∧
    ∀ other, call < other → other ≤ position →
      (session.stackAt call).depth < (session.stackAt other).depth

/-- A halting step leaves the frame that a step has entered. -/
structure Returns (session : Session) (call last : Nat) : Prop where
  isOpen : session.OpenAt call last
  innermost : (session.stackAt last).depth = (session.stackAt call).depth + 1
  halts : ∃ step, session.bench.recording.steps[last]? = some step ∧
    Opcode.isHalting step.op = true

section Calls

variable (hl : Loaded session) (hp : session.Processes)

include hl hp

/-- The call stack is deeper than before only inside a call that has been made since and has not
returned. -/
theorem depth_lt_iff {first last : Nat} (hle : first ≤ last) (hlast : last ≤ session.traceLength) :
    (session.stackAt first).depth < (session.stackAt last).depth ↔
      ∃ call, first ≤ call ∧ (session.stackAt call).depth = (session.stackAt first).depth ∧
        session.OpenAt call last := by
  constructor
  · induction last, hle using Nat.le_induction with
    | base => exact fun hlt => absurd hlt (Nat.lt_irrefl _)
    | succ last hle ih =>
      intro hlt
      by_cases hdeeper : (session.stackAt first).depth < (session.stackAt last).depth
      · -- the call was open before
        obtain ⟨call, hcall, hdepth, hbefore, henters, hopen⟩ := ih (by omega) hdeeper
        refine ⟨call, hcall, hdepth, by omega, henters, fun other hother hother' => ?_⟩
        rcases Nat.lt_succ_iff_lt_or_eq.mp (Nat.lt_succ_of_le hother') with hless | rfl
        · exact hopen other hother (by omega)
        · exact hdepth.symm ▸ hlt
      · -- this step makes it
        have hlast : last < session.traceLength := by omega
        obtain ⟨step, hstep, hmoves, -⟩ := exists_moves hl hp hlast
        obtain ⟨henters, hone⟩ := hmoves.enters_of_lt (by omega)
        refine ⟨last, hle, by omega, Nat.lt_succ_self last, ⟨step, hstep, henters⟩, ?_⟩
        intro other hother hother'
        obtain rfl : other = last + 1 := by omega
        omega
  · rintro ⟨call, -, hdepth, hbefore, -, hopen⟩
    exact hdepth ▸ hopen last hbefore (Nat.le_refl last)

/-- While a call is open, the frames of before stand below its own. -/
theorem OpenAt.isSuffix {call position : Nat} (h : session.OpenAt call position)
    (hposition : position ≤ session.traceLength) :
    (session.stackAt call).frames <:+ (session.stackAt position).frames := by
  obtain ⟨hlt, -, hopen⟩ := h
  induction position, hlt using Nat.le_induction with
  | base =>
    obtain ⟨step, -, hmoves, -⟩ := exists_moves hl hp hposition
    exact hmoves.isSuffix_of_lt (hopen (call + 1) (Nat.lt_succ_self call) (Nat.le_refl _))
  | succ position hlt ih =>
    obtain ⟨step, -, hmoves, -⟩ := exists_moves hl hp hposition
    have hbelow := ih (by omega) fun other ho ho' => hopen other ho (by omega)
    exact hmoves.isSuffix hbelow (hopen position hlt (by omega))

/-- A call leaves the call stack as it found it. -/
theorem Returns.stackAt_succ {call last : Nat} (h : session.Returns call last) :
    session.stackAt (last + 1) = session.stackAt call := by
  obtain ⟨step, hstep, hhalting⟩ := h.halts
  obtain ⟨hlt, -⟩ := List.getElem?_eq_some_iff.mp hstep
  obtain ⟨step', hstep', hmoves, -⟩ := exists_moves hl hp hlt
  obtain rfl := Option.some.inj (hstep.symm.trans hstep')
  rw [hmoves.eq_pop hhalting]
  -- the innermost frame is the only one above those of before
  obtain ⟨upper, hupper⟩ := h.isOpen.isSuffix hl hp (Nat.le_of_lt hlt)
  have hdepth := h.innermost
  rw [CallStack.depth, CallStack.depth, ← hupper, List.length_append] at hdepth
  obtain ⟨frame, rfl⟩ := List.length_eq_one_iff.mp (by omega : upper.length = 1)
  rw [CallStack.pop, ← hupper]
  rfl

end Calls

/-! ### Functions -/

/-- The jumps of the steps from one position up to another. -/
def jumpsFrom (session : Session) (first last : Nat) : List Jump :=
  (List.range' first (last - first)).map session.jumpAt

/-- By how much the jumps from one position up to another change the depth of functions. -/
def climb (session : Session) (first last : Nat) : Int :=
  ∑ position ∈ Finset.Ico first last, (session.jumpAt position).delta

theorem climb_self (session : Session) (first : Nat) : session.climb first first = 0 := by
  rw [climb, Finset.Ico_self, Finset.sum_empty]

theorem climb_succ (session : Session) {first last : Nat} (h : first ≤ last) :
    session.climb first (last + 1)
      = session.climb first last + (session.jumpAt last).delta :=
  Finset.sum_Ico_succ_top h _

/-- The least of some numbers after one more has come. -/
theorem isLeast_succ {f : Nat → Int} {first last : Nat} {lowest : Int} (hle : first ≤ last)
    (h : IsLeast (f '' Set.Icc first last) lowest) :
    IsLeast (f '' Set.Icc first (last + 1)) (min lowest (f (last + 1))) := by
  have hsucc : first ≤ Order.succ last := Nat.le_succ_of_le hle
  have hset : f '' Set.Icc first (last + 1) = insert (f (last + 1)) (f '' Set.Icc first last) := by
    rw [← Set.image_insert_eq, ← Order.succ_eq_add_one, Order.Icc_succ_right hsucc]
  rw [hset, min_comm]
  exact h.insert _

section Functions

variable (hl : Loaded session) (hp : session.Processes)

include hl hp

/-- The depth of functions follows the jumps. -/
theorem functionDepthAt_leaps {first last : Nat} (hle : first ≤ last)
    (hlast : last ≤ session.traceLength) :
    session.functionDepthAt last
      = (session.jumpsFrom first last).foldl Jump.leap (session.functionDepthAt first) := by
  induction last, hle using Nat.le_induction with
  | base => rw [jumpsFrom, Nat.sub_self]; rfl
  | succ last hle ih =>
    obtain ⟨-, -, -, hdepth⟩ := exists_moves hl hp hlast
    have hcount : last + 1 - first = last - first + 1 := by omega
    have hlast' : first + (last - first) = last := by omega
    rw [hdepth, ih (by omega), jumpsFrom, jumpsFrom, hcount, List.range'_1_concat, hlast',
      List.map_append, List.foldl_append]
    rfl

/-- From a depth that is not negative, the jumps lead to the sum of them all, raised by as much as
their sum would have fallen below zero on the way. -/
theorem exists_functionDepthAt {first last : Nat} (hle : first ≤ last)
    (hlast : last ≤ session.traceLength) (hnonneg : 0 ≤ session.functionDepthAt first) :
    ∃ lowest, IsLeast (session.climb first '' Set.Icc first last) lowest ∧
      session.functionDepthAt last = session.functionDepthAt first + session.climb first last
        - min 0 (session.functionDepthAt first + lowest) := by
  -- on the positions; the depth is stopped at zero wherever the sum has a new minimum below it
  induction last, hle using Nat.le_induction with
  | base =>
    refine ⟨0, ?_, ?_⟩
    · rw [Set.Icc_self, Set.image_singleton, climb_self]
      exact isLeast_singleton
    · rw [climb_self]
      omega
  | succ last hle ih =>
    obtain ⟨lowest, hlowest, hbefore⟩ := ih (by omega)
    obtain ⟨-, -, -, hdepth⟩ := exists_moves hl hp hlast
    refine ⟨min lowest (session.climb first (last + 1)), isLeast_succ hle hlowest, ?_⟩
    have hleast : lowest ≤ session.climb first last :=
      hlowest.2 ⟨last, ⟨hle, Nat.le_refl last⟩, rfl⟩
    rw [hdepth, Jump.leap_of_nonneg (by omega), hbefore, climb_succ session hle]
    omega

end Functions

end Session

end TraceDebugger
