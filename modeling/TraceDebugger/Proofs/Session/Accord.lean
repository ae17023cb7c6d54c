/-
The call stack and the depths that a trace records.

The frames are told by opcodes alone: a step that calls or deploys enters a frame, whether the
machine has found code to run or not.  The depths that the machine records rise only where it has.
So the two differ by the steps that have entered no code (`hollowBefore`).

* `RecordsDepths` — the recorded depths behave as those of the machine;
* `exists_depth_stackAt` — how deep the call stack is at a position;
* `depth_recorded` — and at the cursor of a session, against the depth that its step records.
-/
import TraceDebugger.Proofs.Session.Comparison
import TraceDebugger.Proofs.Session.Depths
import Mathlib.Data.Nat.Count

namespace TraceDebugger

/-! ### Recorded depths -/

/-- The depth that is recorded after a step: one more if the step enters code, the same if it enters
none, one less after a step that halts, and otherwise the same. -/
def Step.Precedes (step later : Step) : Prop :=
  if step.enters then later.depth = step.depth + 1 ∨ later.depth = step.depth
  else later.depth = step.depth + if Opcode.isHalting step.op then -1 else 0

/-- The recorded depths of a trace behave as those of the machine. -/
structure RecordsDepths (steps : List Step) : Prop where
  first : ∀ step ∈ steps.head?, step.depth = 1
  next : List.IsChain Step.Precedes steps

namespace Session

variable {start : Workbench} {base base' : Base} {ticket ticket' : Ticket}
  {origin here session : Session} {address : String} {position : Nat}

/-- A session that has just loaded a trace, and entered its first frame by the call of an
address. -/
inductive LoadedAt (address : String) (session : Session) : Prop
  | steps {programs : Registry Program} {checksum : Option Address.Checksum} {depth : Int}
      {steps : List Step}
      {binary : Option String} {reply : Reply}
      (h : (new programs checksum depth).perform (.load steps (some address) binary)
        = (session, ⟨some (.ok reply), false⟩))
  | entries {programs : Registry Program} {checksum : Option Address.Checksum} {depth : Int}
      {entries : List Json}
      {binary : Option String} {reply : Reply}
      (h : (new programs checksum depth).perform (.loadLogs entries (some address) binary)
        = (session, ⟨some (.ok reply), false⟩))

theorem LoadedAt.exists_loadedWith (h : LoadedAt address session) :
    ∃ binary, LoadedWith (some address) binary session := by
  cases h with
  | steps h => exact ⟨_, .steps h⟩
  | entries h => exact ⟨_, .entries h⟩

theorem LoadedAt.loaded (h : LoadedAt address session) : Loaded session := by
  obtain ⟨binary, hload⟩ := h.exists_loadedWith
  exact hload.loaded

/-- One frame has been entered. -/
theorem LoadedAt.depth_zero (h : LoadedAt address session) (hne : address ≠ "") :
    (session.stackAt 0).depth = 1 := by
  obtain ⟨binary, hload⟩ := h.exists_loadedWith
  have hfirst := hload.firstStack
  show session.bench.slices.callStack.depth = 1
  generalize session.bench.slices.callStack = stack at hfirst ⊢
  cases hfirst with
  | call _ _ => rfl
  | create ha _ _ => exact absurd (ha address rfl) hne
  | nothing ha _ => exact absurd (ha address rfl) hne

/-- The depth that is recorded at a position. -/
def recordedAt (session : Session) (position : Nat) : Int :=
  (session.bench.recording.steps[position]?.map (·.depth)).getD 0

/-- The step at a position calls or deploys, and enters no code. -/
def hollowAt (session : Session) (position : Nat) : Bool :=
  session.bench.recording.steps[position]?.any (·.enters) &&
    session.recordedAt (position + 1) == session.recordedAt position

/-- How many of the steps before a position call or deploy, and enter no code. -/
def hollowBefore (session : Session) (position : Nat) : Nat :=
  Nat.count (fun earlier => session.hollowAt earlier = true) position

/-- How many frames have been entered and not left, as the opcodes and the recorded depths tell. -/
def levelAt (session : Session) (position : Nat) : Int :=
  session.recordedAt position + session.hollowBefore position

theorem recordedAt_eq {step : Step}
    (h : session.bench.recording.steps[position]? = some step) :
    session.recordedAt position = step.depth := by
  rw [recordedAt, h]
  rfl

theorem hollowBefore_succ (session : Session) (position : Nat) :
    session.hollowBefore (position + 1)
      = session.hollowBefore position + if session.hollowAt position = true then 1 else 0 :=
  Nat.count_succ _ _

/-- The depth that is recorded after a step. -/
theorem recordedAt_succ (hd : RecordsDepths session.bench.recording.steps)
    {step : Step} (hstep : session.bench.recording.steps[position]? = some step)
    (hlt : position + 1 < session.traceLength) :
    if step.enters then session.recordedAt (position + 1) = session.recordedAt position + 1 ∨
        session.recordedAt (position + 1) = session.recordedAt position
      else session.recordedAt (position + 1) = session.recordedAt position
        + if Opcode.isHalting step.op then -1 else 0 := by
  have hprecedes := List.isChain_iff_getElem.mp hd.next position hlt
  obtain ⟨hbefore, rfl⟩ := List.getElem?_eq_some_iff.mp hstep
  rw [recordedAt_eq (List.getElem?_eq_getElem hlt), recordedAt_eq hstep]
  exact hprecedes

/-- By how much a step moves the level. -/
theorem levelAt_succ (hd : RecordsDepths session.bench.recording.steps) {step : Step}
    (hstep : session.bench.recording.steps[position]? = some step)
    (hlt : position + 1 < session.traceLength) :
    session.levelAt (position + 1) = session.levelAt position
      + if step.enters then 1 else if Opcode.isHalting step.op then -1 else 0 := by
  have hrecorded := recordedAt_succ hd hstep hlt
  have hhollow : session.hollowAt position = (step.enters &&
      session.recordedAt (position + 1) == session.recordedAt position) := by
    rw [hollowAt, hstep]
    rfl
  rw [levelAt, levelAt, hollowBefore_succ, hhollow]
  cases henters : step.enters with
  | true =>
    -- what the machine does not count as a rise is counted as a hollow step
    rw [henters, if_pos rfl] at hrecorded
    rcases hrecorded with hrises | hsame
    · have hdiffers : ¬ session.recordedAt (position + 1) = session.recordedAt position := by omega
      rw [if_neg (by simpa using hdiffers), if_pos rfl, hrises]
      omega
    · rw [if_pos (by simpa using hsame), if_pos rfl, hsame]
      omega
  | false =>
    rw [henters, if_neg Bool.false_ne_true] at hrecorded
    rw [Bool.false_and, if_neg Bool.false_ne_true, if_neg Bool.false_ne_true, hrecorded]
    omega

/-! ### Frames -/

section Run

variable (hl : LoadedAt address session) (hne : address ≠ "") (hp : session.Processes)
  (hd : RecordsDepths session.bench.recording.steps)

include hl hne hp hd

/-- The call stack is as deep as the level, raised by as much as the level has fallen below zero on
the way. -/
theorem exists_depth_stackAt (hlt : position < session.traceLength) :
    ∃ lowest, IsLeast (session.levelAt '' Set.Icc 0 position) lowest ∧
      ((session.stackAt position).depth : Int) = session.levelAt position - min 0 lowest := by
  induction position with
  | zero =>
    obtain ⟨step, hstep⟩ : ∃ step, session.bench.recording.steps[0]? = some step :=
      ⟨_, List.getElem?_eq_getElem hlt⟩
    have hone : session.levelAt 0 = 1 := by
      have hfirst := hd.first step (List.head?_eq_getElem?.trans hstep)
      rw [levelAt, recordedAt_eq hstep, hfirst]
      rfl
    refine ⟨1, ?_, by rw [hl.depth_zero hne, hone]; rfl⟩
    rw [Set.Icc_self, Set.image_singleton, hone]
    exact isLeast_singleton
  | succ position ih =>
    -- the stack moves with the level, except that a step that halts takes nothing off an empty one:
    -- there the level falls to a new lowest
    obtain ⟨lowest, hlowest, hbefore⟩ := ih (Nat.lt_of_succ_lt hlt)
    obtain ⟨step, hstep, hmoves, -⟩ := exists_moves hl.loaded hp (Nat.lt_of_succ_lt hlt)
    refine ⟨_, isLeast_succ (Nat.zero_le position) hlowest, ?_⟩
    have hleast : lowest ≤ session.levelAt position :=
      hlowest.2 ⟨position, ⟨Nat.zero_le position, Nat.le_refl position⟩, rfl⟩
    have hlevel := levelAt_succ hd hstep hlt
    generalize session.stackAt (position + 1) = next at hmoves ⊢
    cases hmoves with
    | enter address binary henters =>
      rw [henters, if_pos rfl] at hlevel
      rw [CallStack.depth_push]
      omega
    | leave hhalting =>
      have henters : step.enters = false := by
        rw [Step.enters, Opcode.not_isCall_of_isHalting hhalting,
          Opcode.not_isCreate_of_isHalting hhalting]
        rfl
      rw [henters, hhalting, if_neg Bool.false_ne_true, if_pos rfl] at hlevel
      rw [CallStack.depth_pop]
      omega
    | stay henters hhalting =>
      rw [henters, hhalting, if_neg Bool.false_ne_true, if_neg Bool.false_ne_true] at hlevel
      omega

end Run

/-- **The call stack and the recorded depths.**  Let a session load a trace with the address of its
first call, and let the steps be processed and record depths as the machine does.  Whatever has been
asked of the session since then, at a step the call stack is as deep as the step records and as many
steps before it as have called or deployed without entering code, raised by as much as these sums
have fallen below zero.  So as long as no recorded depth is negative the call stack is deeper than
recorded by the number of such steps, and agrees exactly if there is none. -/
theorem depth_recorded (hl : LoadedAt address origin) (hne : address ≠ "") (hp : origin.Processes)
    (hd : RecordsDepths origin.bench.recording.steps) (ho : Onward origin here)
    (hi : here.caller = .idle) (hw : here.store.tripwires = []) {step : Step}
    (hstep : here.bench.step = some step) :
    (∃ lowest, IsLeast (origin.levelAt '' Set.Icc 0 here.cursor) lowest ∧
      (here.bench.slices.callStack.depth : Int)
        = step.depth + origin.hollowBefore here.cursor - min 0 lowest) ∧
    ((∀ position, position ≤ here.cursor → 0 ≤ origin.recordedAt position) →
      (here.bench.slices.callStack.depth : Int) = step.depth + origin.hollowBefore here.cursor ∧
      ((here.bench.slices.callStack.depth : Int) = step.depth ↔
        ∀ position, position < here.cursor → origin.hollowAt position = false)) := by
  obtain ⟨start, base₀, ticket₀, base, ticket, hs, hat₀, hcursor, hat⟩ :=
    ho.exists_both_at hl.loaded hp hi hw
  have hstack : here.bench.slices.callStack = origin.stackAt here.cursor :=
    congrArg Slices.callStack (hat₀.slices_eq hs hcursor hat)
  have hhere : origin.bench.recording.steps[here.cursor]? = some step := by
    have hstay : base.bench.advanceBy 0 = .ok base.bench := rfl
    have hsteps := hat₀.steps_eq hs hat hstay
    rw [← hsteps]
    rw [hat.eq_rest] at hstep ⊢
    exact hstep
  obtain ⟨hlt, -⟩ := List.getElem?_eq_some_iff.mp hhere
  obtain ⟨lowest, hlowest, hdepth⟩ := exists_depth_stackAt hl hne hp hd hlt
  have hlevel : origin.levelAt here.cursor = step.depth + origin.hollowBefore here.cursor := by
    rw [levelAt, recordedAt_eq hhere]
  rw [hlevel] at hdepth
  rw [hstack]
  refine ⟨⟨lowest, hlowest, hdepth⟩, fun hnonneg => ?_⟩
  -- a level is no lower than the depth recorded there, so nothing has to be raised
  have hleast : 0 ≤ lowest := by
    obtain ⟨position, ⟨-, hle⟩, rfl⟩ := hlowest.1
    have hrecorded := hnonneg position hle
    rw [levelAt]
    omega
  have hagrees : ((origin.stackAt here.cursor).depth : Int)
      = step.depth + origin.hollowBefore here.cursor := by
    omega
  refine ⟨hagrees, ?_⟩
  have hcount : origin.hollowBefore here.cursor = 0 ↔
      ∀ position, position < here.cursor → origin.hollowAt position = false := by
    rw [hollowBefore, Nat.count_iff_forall_not]
    exact forall₂_congr fun position _ => iff_of_eq (Bool.not_eq_true _)
  rw [hagrees, ← hcount]
  omega

/-! ### A call of an account without code -/

/-- The steps of a contract that calls an account without code. -/
def vacantSteps : List Step :=
  [{ pc := 0, op := "CALL", stack := some ["0", "0", "0", "0", "1", "b2", "ffff"] },
    { pc := 1, op := "POP", stack := some ["1"] }, { pc := 2, op := "STOP" }]

/-- A session that has loaded them. -/
def vacant : Session :=
  ((new {} none 1).perform
    (.load vacantSteps (some "0x00000000000000000000000000000000000000a1") none)).1

theorem load_vacant : ∃ reply, (new {} none 1).perform
      (.load vacantSteps (some "0x00000000000000000000000000000000000000a1") none)
    = (vacant, ⟨some (.ok reply), false⟩) := by
  obtain ⟨addresses, htargets⟩ : ∃ addresses, callTargets none vacantSteps = .ok addresses :=
    ⟨_, rfl⟩
  exact ⟨_, perform_load htargets _ _ _ _⟩

theorem loadedAt_vacant : LoadedAt "0x00000000000000000000000000000000000000a1" vacant :=
  load_vacant.elim fun _ h => .steps h

theorem steps_vacant : vacant.bench.recording.steps = vacantSteps :=
  load_vacant.elim fun _ h => (fresh_of_load h).steps_eq

/-- The depths are recorded as the machine does: the call enters no code. -/
theorem recordsDepths_vacant : RecordsDepths vacant.bench.recording.steps := by
  rw [steps_vacant]
  refine ⟨fun step hstep => ?_, ?_⟩
  · obtain rfl := Option.some.inj hstep
    rfl
  · refine .cons_cons (.inr rfl) (.cons_cons ?_ (.singleton _))
    rfl

theorem run_vacant :
    vacant.Processes ∧ (vacant.obey [.advance]).bench.slices.callStack.depth = 2 ∧
      (vacant.obey [.advance]).bench.step.map (·.depth) = some 1 := by
  decide +kernel

/-- The frame of an account without code stays on the call stack. -/
theorem vacant_depth_differs :
    LoadedAt "0x00000000000000000000000000000000000000a1" vacant ∧ vacant.Processes ∧
      RecordsDepths vacant.bench.recording.steps ∧
      ∃ step, (vacant.obey [.advance]).bench.step = some step ∧
        ((vacant.obey [.advance]).bench.slices.callStack.depth : Int) ≠ step.depth := by
  obtain ⟨hprocesses, hdepth, hstep⟩ := run_vacant
  obtain ⟨step, hstep, hrecorded⟩ := Option.map_eq_some_iff.mp hstep
  refine ⟨loadedAt_vacant, hprocesses, recordsDepths_vacant, step, hstep, ?_⟩
  rw [hdepth, hrecorded]
  decide

theorem vacant_depth_recorded :
    LoadedAt "0x00000000000000000000000000000000000000a1" vacant ∧ vacant.Processes ∧
      RecordsDepths vacant.bench.recording.steps ∧ Onward vacant (vacant.obey [.advance]) ∧
      (vacant.obey [.advance]).caller = .idle ∧ (vacant.obey [.advance]).store.tripwires = [] ∧
      ∃ step, (vacant.obey [.advance]).bench.step = some step ∧
        ((vacant.obey [.advance]).bench.slices.callStack.depth : Int)
          = step.depth + vacant.hollowBefore (vacant.obey [.advance]).cursor := by
  obtain ⟨hprocesses, -, hstep⟩ := run_vacant
  obtain ⟨step, hstep, -⟩ := Option.map_eq_some_iff.mp hstep
  obtain ⟨honward, hidle, hwired⟩ := loadedAt_vacant.loaded.onward_obey hprocesses [.advance]
  obtain ⟨-, hagrees⟩ := depth_recorded loadedAt_vacant (by decide) hprocesses recordsDepths_vacant
    honward hidle hwired hstep
  have hnonneg : ∀ position, position ≤ (vacant.obey [.advance]).cursor →
      0 ≤ vacant.recordedAt position := by
    decide +kernel
  exact ⟨loadedAt_vacant, hprocesses, recordsDepths_vacant, honward, hidle, hwired, step, hstep,
    (hagrees hnonneg).1⟩

end Session

end TraceDebugger
