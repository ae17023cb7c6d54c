/-
The targets of calls, told twice.

When a trace is loaded, the targets of its calls are listed by a pass over all of its steps.  When a
call is processed, its target is read again from the step under the cursor.  Both readings spell the
address alike, so every frame that a listed call enters is known by an address in the list.

* `exists_targets_of_load` — the reply to loading a trace is the list that the session holds;
* `kept_of_advanceBy` — no advance changes the list or the spelling of addresses;
* `Onward.onCourse` — a session that has loaded a trace is as far as its cursor tells at any moment;
* `exists_target_of_calls` — the frame that a call enters;
* `targets_announced` — the main result.
-/
import TraceDebugger.Proofs.Advance.Spelling
import TraceDebugger.Proofs.Execution.CallTargets
import TraceDebugger.Proofs.Session.Depths
import TraceDebugger.Proofs.Session.Race
import TraceDebugger.Proofs.Session.Spelling

namespace TraceDebugger

/-! ### Advances -/

namespace Workbench

variable {start bench reached : Workbench} {events : List Event} {count : Nat}

theorem addresses_past (h : bench.passage = .ok events) :
    (bench.past events).recording.addresses = bench.recording.addresses := by
  rw [recording_past h]
  split
  · exact (Recording.forward_cases _).2.2.1
  · rfl

/-- No advance changes the list of the call targets or the spelling of addresses. -/
theorem kept_of_advanceBy (h : bench.advanceBy count = .ok reached) :
    reached.checksum = bench.checksum ∧
      reached.recording.addresses = bench.recording.addresses := by
  induction count generalizing reached with
  | zero =>
    obtain rfl := Except.ok.inj h
    exact ⟨rfl, rfl⟩
  | succ count ih =>
    obtain ⟨before, hbefore, hlast⟩ := exists_of_bind_eq_ok h
    obtain ⟨events, hevents, rfl⟩ := exists_of_map_eq_ok hlast
    obtain ⟨hspelling, haddresses⟩ := ih hbefore
    exact ⟨hspelling, (addresses_past hevents).trans haddresses⟩

theorem OnCourse.kept (h : start.OnCourse bench) : bench.checksum = start.checksum ∧
    bench.recording.addresses = start.recording.addresses := by
  obtain ⟨reached, hreached, hcore⟩ := h
  obtain ⟨hspelling, haddresses⟩ := kept_of_advanceBy hreached
  exact ⟨(congrArg checksum hcore).symm.trans hspelling,
    (congrArg Recording.addresses (recording_congr hcore)).symm.trans haddresses⟩

end Workbench

namespace Session

variable {programs : Registry Program} {checksum : Option Address.Checksum} {depth : Int}
  {steps : List Step}
  {address binary : Option String} {origin here : Session} {start : Workbench} {base : Base}
  {ticket : Ticket} {reply : Reply}

/-! ### Loading -/

/-- The reply to loading a trace is the list of the call targets, and the session holds it. -/
theorem exists_targets_of_load
    (h : (new programs checksum depth).perform (.load steps address binary)
      = (origin, ⟨some (.ok reply), false⟩)) :
    ∃ addresses, callTargets checksum steps = .ok addresses ∧ reply = .targets addresses ∧
      origin.bench.recording.addresses = addresses ∧ origin.bench.checksum = checksum := by
  -- a load whose targets cannot be found gives no reply
  cases htargets : callTargets checksum steps with
  | error fault =>
    have hstuck := load_stuck htargets programs depth address binary
    rw [h] at hstuck
    cases hstuck
  | ok addresses =>
    obtain ⟨lines, base, ticket, hperform, -, hentered⟩ :=
      exists_landed htargets programs depth address binary
    obtain ⟨rfl, htold⟩ := Prod.mk.inj (h.symm.trans hperform)
    obtain rfl : reply = .targets addresses := by
      simpa using htold
    have hrecording : base.bench.recording
        = (received programs checksum depth steps addresses lines).bench.recording :=
      (Workbench.recording_congr hentered.core).trans
        (Slices.recording_after_derived derived_of_firstFrame _)
    exact ⟨addresses, rfl, rfl, congrArg Recording.addresses hrecording,
      congrArg Workbench.checksum hentered.core⟩

/-! ### Runs -/

/-- Whatever has been asked of a session that has loaded a trace, it is as far as its cursor
tells. -/
theorem Onward.onCourse (hs : Outset start) (h : At start base ticket origin)
    (ho : Onward origin here) : start.OnCourse here.bench := by
  obtain ⟨plain, harms, ⟨base, ticket, hat⟩ | ⟨low, order, ended, found, hroute⟩⟩ :=
    ho.exists_arms hs h
  · exact harms.bench ▸ hat.onCourse
  · exact harms.bench ▸ hroute.course

theorem Onward.slices_eq (hs : Outset start) (h : At start base ticket origin)
    (hc : origin.cursor = 0) (ho : Onward origin here) :
    here.bench.slices = (origin.viewAt here.cursor).slices := by
  have hcourse := ho.onCourse hs h
  obtain ⟨base', ticket', hview, hviewed⟩ := h.exists_view hs hc hcourse
  exact Workbench.slices_congr (hcourse.core_eq hview.onCourse hviewed.symm)

/-- At every position addresses are spelled as they are from the outset. -/
theorem At.checksum_viewAt (hs : Outset start) (h : At start base ticket origin)
    (position : Nat) : (origin.viewAt position).checksum = origin.bench.checksum := by
  obtain ⟨⟨base', ticket', hview⟩, -⟩ := At.obey hs (List.replicate position .advance) h
  exact hview.onCourse.kept.1.trans h.onCourse.kept.1.symm

/-- A call that tells its target enters a frame that is known by it. -/
theorem exists_target_of_calls (hl : Loaded origin) (hp : origin.Processes) {position : Nat}
    {step : Step} {word : String} (hstep : origin.bench.recording.steps[position]? = some step)
    (hc : step.Calls word) :
    ∃ target, Address.ofText origin.bench.checksum word = .ok target ∧
      origin.stackAt (position + 1) = (origin.stackAt position).push (some target) none := by
  obtain ⟨start, base, ticket, hs, hat, hcursor, -⟩ := hl.outset hp
  obtain ⟨hannounces, hword⟩ := Step.calls_iff.mp hc
  have hcall := Opcode.isCall_of_announcesTarget hannounces
  have hlt : position < origin.traceLength := (List.getElem?_eq_some_iff.mp hstep).1
  obtain ⟨other, events, hpasses⟩ := hat.exists_passage hs hcursor hlt
  obtain rfl := Option.some.inj (hstep.symm.trans hpasses.isStep)
  obtain ⟨same, hsame, hframe, -⟩ := exists_frameStep hl hp hlt
  obtain rfl := Option.some.inj (hstep.symm.trans hsame)
  generalize origin.stackAt (position + 1) = next at hframe ⊢
  -- an opcode that announces a target is a call, and none of the others
  cases hframe with
  | @call address _ ha =>
    rw [Workbench.callAddress, hpasses.reads, Option.bind_some, hword] at ha
    obtain ⟨target, htarget, rfl⟩ := exists_of_map_eq_ok ha
    rw [hat.checksum_viewAt hs position] at htarget
    exact ⟨target, htarget, rfl⟩
  | create hcreate _ =>
    rw [Opcode.not_isCreate_of_isCall hcall] at hcreate
    cases hcreate
  | leave hhalts =>
    rw [Opcode.not_isCall_of_isHalting hhalts] at hcall
    cases hcall
  | stay henters _ =>
    rw [Step.enters_of_isCall hcall] at henters
    cases henters

/-- **The targets of calls.**  The reply to loading a trace lists the targets of its calls, each
once and in the order in which they are called first.  Whatever is asked of the session from then
on, it holds that list, and its call stack is that of its cursor.  If all steps are processed, each
call that tells its target enters a frame, and the frame is known by an address in the list. -/
theorem targets_announced {request : Request} (hr : request.Loads steps address binary)
    (h : (new programs checksum depth).perform request = (origin, ⟨some (.ok reply), false⟩))
    (hp : origin.Processes) :
    ∃ addresses, reply = .targets addresses ∧ Listed checksum steps addresses ∧
      (∀ here, Onward origin here → here.bench.recording.addresses = addresses ∧
        here.bench.slices.callStack = origin.stackAt here.cursor) ∧
      ∀ position step word, steps[position]? = some step → step.Calls word →
        ∃ target, target ∈ addresses ∧ Address.ofText checksum word = .ok target ∧
          origin.stackAt (position + 1) = (origin.stackAt position).push (some target) none := by
  rw [perform_loads hr] at h
  have hl : Loaded origin := .steps h
  -- the trace of the session is the one that was loaded, so the list is of its calls
  have hsteps : origin.bench.recording.steps = steps := (fresh_of_load h).steps_eq
  obtain ⟨addresses, htargets, rfl, haddresses, rfl⟩ := exists_targets_of_load h
  have hlisted := listed_of_callTargets htargets
  refine ⟨addresses, rfl, hlisted, fun here ho => ?_, fun position step word hstep hc => ?_⟩
  · obtain ⟨start, base, ticket, hs, hat, hcursor, -⟩ := hl.outset hp
    refine ⟨?_, congrArg Slices.callStack (ho.slices_eq hs hat hcursor)⟩
    exact (ho.onCourse hs hat).kept.2.trans (hat.onCourse.kept.2.symm.trans haddresses)
  · obtain ⟨target, htarget, hstack⟩ := exists_target_of_calls hl hp (hsteps ▸ hstep) hc
    exact ⟨target, (hlisted.mem_iff target).mpr ⟨position, step, word, hstep, hc, htarget⟩, htarget,
      hstack⟩

/-- The steps of a run that calls an account twice, and another one in between. -/
def againSteps : List Step :=
  [{ pc := 0, op := "CALL", stack := some ["00", "0xbeef", "5208"] },
    { pc := 1, op := "DELEGATECALL", stack := some ["cafe", "5208"] },
    { pc := 2, op := "CALL", stack := some ["BEEF", "5208"] }, { pc := 3, op := "STOP" }]

/-- The accounts that are called. -/
def againTargets : List String :=
  ["0x000000000000000000000000000000000000beef", "0x000000000000000000000000000000000000cafe"]

/-- A session that has loaded that run. -/
def again : Session := ((new {} none 1).perform (.load againSteps none none)).1

theorem callTargets_again : callTargets none againSteps = .ok againTargets := by
  obtain ⟨addresses, htargets⟩ : ∃ addresses, callTargets none againSteps = .ok addresses :=
    ⟨_, rfl⟩
  have hfound : (callTargets none againSteps).toOption = some againTargets := by decide +kernel
  rw [htargets] at hfound ⊢
  exact congrArg Except.ok (Option.some.inj hfound)

theorem processes_again : again.Processes := by decide +kernel

/-- The second call of the account enters a frame that is known by the address in the list. -/
theorem again_targets_announced :
    Request.Loads againSteps none none (.load againSteps none none) ∧
      (new {} none 1).perform (.load againSteps none none)
        = (again, ⟨some (.ok (.targets againTargets)), false⟩) ∧
      again.Processes ∧ Listed none againSteps againTargets ∧
      again.bench.recording.addresses = againTargets ∧
      ∃ target, target ∈ againTargets ∧ Address.ofText none "BEEF" = .ok target ∧
        again.stackAt 3 = (again.stackAt 2).push (some target) none := by
  have hload := perform_load callTargets_again {} 1 none none
  obtain ⟨addresses, hreply, hlisted, hheld, hcalls⟩ :=
    targets_announced .steps hload processes_again
  obtain rfl : againTargets = addresses := Reply.targets.inj hreply
  have hcall : Step.Calls { pc := 2, op := "CALL", stack := some ["BEEF", "5208"] } "BEEF" :=
    ⟨.inl rfl, [], "5208", rfl⟩
  exact ⟨.steps, hload, processes_again, hlisted, (hheld again .origin).1, hcalls 2 _ _ rfl hcall⟩

end Session

end TraceDebugger
