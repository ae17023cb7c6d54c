/-
How deep functions are nested, in closed form.

The depth of functions starts where the session was told that it does and follows the jumps, but
never falls below zero.  So it is the sum of what the jumps make of it, less the lowest that the sum
has been, if it has been negative.

* `LoadedToDepth.functionDepthAt_zero` — the depth before the first step;
* `Passes.jumpIn_eq` — the jump of a step is that in the program that owns it;
* `functionDepth_reflected` — the depth at any cursor.
-/
import TraceDebugger.Proofs.Session.Comparison
import TraceDebugger.Proofs.Session.Depths
import TraceDebugger.Proofs.Session.Owner

namespace TraceDebugger.Session

variable {origin here session : Session} {depth : Int} {position : Nat} {step : Step}
  {events : List Event}

/-- A session that has just loaded a trace, and was told how many functions are under way at its
beginning. -/
inductive LoadedToDepth (depth : Int) (session : Session) : Prop
  | steps {programs : Registry Program} {checksum : Option Address.Checksum} {steps : List Step}
      {address binary : Option String} {reply : Reply}
      (h : (new programs checksum depth).perform (.load steps address binary)
        = (session, ⟨some (.ok reply), false⟩))
  | entries {programs : Registry Program} {checksum : Option Address.Checksum} {entries : List Json}
      {address binary : Option String} {reply : Reply}
      (h : (new programs checksum depth).perform (.loadLogs entries address binary)
        = (session, ⟨some (.ok reply), false⟩))

theorem LoadedToDepth.loaded (h : LoadedToDepth depth session) : Loaded session := by
  cases h with
  | steps h => exact .steps h
  | entries h => exact .entries h

theorem LoadedToDepth.functionDepthAt_zero (h : LoadedToDepth depth session) :
    session.functionDepthAt 0 = depth := by
  obtain ⟨programs, checksum, steps, address, binary, reply, hload⟩ :
      ∃ programs checksum steps address binary reply,
        (new programs checksum depth).perform (.load steps address binary)
          = (session, ⟨some (.ok reply), false⟩) := by
    cases h with
    | steps h => exact ⟨_, _, _, _, _, _, h⟩
    | entries h =>
      obtain ⟨steps, h⟩ := load_of_loadLogs h
      exact ⟨_, _, steps, _, _, _, h⟩
  obtain ⟨addresses, hslices⟩ := slices_of_load hload
  have hzero : session.functionDepthAt 0 = session.bench.slices.functionDepth.depth := rfl
  rw [hzero, hslices]
  cases hf : firstFrame address binary with
  | none => rfl
  | some frame => obtain ⟨address, rfl⟩ | ⟨binary, rfl⟩ := firstFrame_cases hf <;> rfl

/-- The jump at a position is what the program of the step there tells. -/
theorem Passes.jumpIn_eq (h : session.Passes position step events) :
    step.jumpIn ((session.viewAt position).owner step) = .ok (session.jumpAt position) := by
  obtain ⟨jump, -, -, hjump, -⟩ := Workbench.exists_answers h.poised h.reads h.passage
  rw [jumpAt, ← Workbench.jump_eq h.reads h.program, hjump]
  rfl

/-- **The depth of functions is that of their jumps, reflected at zero.**  Whatever has been asked
of a session since it loaded a trace whose steps are processed, with a depth to begin with that is
not negative: at the cursor the depth is that one and the jumps of all steps before it, less the
lowest that this sum has been on the way if it has been negative.  The jump of each step is the one
that the program of the step tells before the step. -/
theorem functionDepth_reflected (hl : LoadedToDepth depth origin) (hnonneg : 0 ≤ depth)
    (hp : origin.Processes) (ho : Onward origin here) (hi : here.caller = .idle)
    (hw : here.store.tripwires = []) :
    (∀ position, position < origin.traceLength →
      ∃ step, origin.bench.recording.steps[position]? = some step ∧
        step.jumpIn ((origin.viewAt position).owner step) = .ok (origin.jumpAt position)) ∧
    ∃ lowest,
      IsLeast ((fun position => depth + origin.climb 0 position) '' Set.Icc 0 here.cursor) lowest ∧
      here.bench.functionDepth = depth + origin.climb 0 here.cursor - min 0 lowest := by
  refine ⟨fun position hlt => ?_, ?_⟩
  · obtain ⟨step, events, h⟩ := exists_passage hl.loaded hp hlt
    exact ⟨step, h.isStep, h.jumpIn_eq⟩
  · obtain ⟨start, base₀, ticket₀, base, ticket, hs, hat₀, hcursor, hat⟩ :=
      ho.exists_both_at hl.loaded hp hi hw
    have hle : here.cursor ≤ origin.traceLength := At.cursor_le hs hat₀ hat
    have hzero := hl.functionDepthAt_zero
    obtain ⟨lowest, hlowest, hdepth⟩ :=
      exists_functionDepthAt hl.loaded hp (Nat.zero_le here.cursor) hle (hzero ▸ hnonneg)
    rw [hzero] at hdepth
    refine ⟨depth + lowest, ?_, (At.depths hs hat₀ hcursor hat).2.trans hdepth⟩
    -- the depth to begin with raises all sums alike
    have hmono : Monotone fun climbed : Int => depth + climbed :=
      fun _ _ h => Int.add_le_add_left h depth
    have hraised := hmono.map_isLeast hlowest
    rwa [Set.image_image] at hraised

/-- The program of the brief trace, with two jumps out of functions and then one into a function. -/
def sinkingProgram : Program :=
  ⟨{ briefMap with
    entries := [⟨0, 5, 0, .out, 0⟩, ⟨6, 3, 0, .out, 0⟩, ⟨10, 2, 0, .into, 0⟩] }, [(0, briefTree)]⟩

/-- A session that has loaded a run of its code, with no function under way. -/
def sinking : Session :=
  ((new { fallback := some sinkingProgram } none 0).perform (.load briefSteps none none)).1

/-- The sum of the jumps falls to two below zero, and one function is under way at the end. -/
theorem sinking_functionDepth_reflected :
    LoadedToDepth 0 sinking ∧ sinking.Processes ∧
      (sinking.obey [.advance, .advance, .advance]).cursor = 3 ∧
      (sinking.obey [.advance, .advance, .advance]).bench.functionDepth = 1 ∧
      IsLeast ((fun position => 0 + sinking.climb 0 position) '' Set.Icc 0 3) (-2) := by
  have hload : LoadedToDepth 0 sinking := .steps (perform_load rfl _ _ _ _)
  have hprocesses : sinking.Processes := by decide +kernel
  obtain ⟨honward, hidle, hwired⟩ :=
    hload.loaded.onward_obey hprocesses [.advance, .advance, .advance]
  have hcursor : (sinking.obey [.advance, .advance, .advance]).cursor = 3 := by decide +kernel
  have hdepth : (sinking.obey [.advance, .advance, .advance]).bench.functionDepth = 1 := by
    decide +kernel
  obtain ⟨lowest, hlowest, heq⟩ :=
    (functionDepth_reflected hload le_rfl hprocesses honward hidle hwired).2
  have hclimb : sinking.climb 0 3 = -1 := by decide +kernel
  -- from the depth and the sum at the end the equation gives the least sum
  rw [hcursor] at hlowest heq
  rw [hdepth, hclimb] at heq
  obtain rfl : lowest = -2 := by omega
  exact ⟨hload, hprocesses, hcursor, hdepth, hlowest⟩

end TraceDebugger.Session
