/-
How a session comes to rest for the first time.

Loading a trace takes two turns: the engine receives the trace and publishes the call targets, and
the caller enters the first frame.  If the call targets can be told, the session then rests before
the first step; if not, the engine has halted and the caller is left waiting.

* `perform_load`, `load_stuck` — a trace is loaded if its call targets can be told, and only then;
* `slices_of_load` — the state of a loaded session has nothing beside its trace and its first frame;
* `Loaded.fresh` — a trace that has been loaded leaves the session at rest before its first step.
-/
import TraceDebugger.Proofs.Session.Answer

namespace TraceDebugger

namespace Session

variable {programs : Registry Program} {checksum : Option Address.Checksum} {depth : Int}
  {steps : List Step}
  {address binary : Option String}

/-- The slices once a trace has been saved. -/
def savedSlices (depth : Int) (steps : List Step) : Slices :=
  { recording := .ofSteps steps, functionDepth := ⟨depth, depth⟩ }

/-- The session once a trace has been saved and the engine is about to receive it. -/
def saved (programs : Registry Program) (checksum : Option Address.Checksum) (depth : Int)
    (steps : List Step) (address binary : Option String) (lines : List LogLine) : Session :=
  { store :=
      { bench := { slices := savedSlices depth steps, order := slices, programs, checksum, lines }
        listeners
        takers := [⟨1, EventKind.commands⟩, ⟨2, [.receiveAddresses]⟩]
        outcomes := [(0, .saveSteps steps)]
        published := [.saveSteps steps]
        nextTicket := 3 }
    engine := .receivingTrace
    dispatcher := .awaitingCommand 1
    caller := .loading 2 address binary
    turns := [.trace (.saveSteps steps)] }

/-- The session that is about to save a trace. -/
def opened (programs : Registry Program) (checksum : Option Address.Checksum) (depth : Int) :
    Session :=
  ((new programs checksum depth).start.take [.receiveAddresses]).2

theorem put_saveSteps : (opened programs checksum depth).put (.saveSteps steps)
    = ({ saved programs checksum depth steps none none
          (opened programs checksum depth).bench.lines with caller := .idle }, none) := by
  have hwired : (opened programs checksum depth).store.Wired := ⟨rfl, rfl, rfl⟩
  have hreduce : (opened programs checksum depth).store.bench.slices.reduce (.saveSteps steps)
      slices = (savedSlices depth steps, none) := rfl
  have hunheard : (opened programs checksum depth).store.hearers
      (Event.saveSteps steps).kind = [] := rfl
  rw [put, attempt_ok (Store.put_unheard hwired hreduce hunheard)]
  rfl

/-- The request to load a trace saves it, and the engine has a turn. -/
theorem load_new : (new programs checksum depth).load steps address binary
    = saved programs checksum depth steps address binary
        (opened programs checksum depth).bench.lines := by
  have hloaded : ¬ (new programs checksum depth).start.bench.recording.loaded = true :=
    Bool.false_ne_true
  have hput : (opened programs checksum depth).put (.saveSteps steps) = _ := put_saveSteps
  rw [opened] at hput
  rw [load, if_neg hloaded, take_eq]
  dsimp only
  rw [hput]
  rfl

/-- The base of a session whose engine has received a trace. -/
def received (programs : Registry Program) (checksum : Option Address.Checksum) (depth : Int)
    (steps : List Step) (addresses : List String) (lines : List LogLine) : Base :=
  { bench :=
      { slices := { savedSlices depth steps with
          recording := { Recording.ofSteps steps with addresses } }
        order := slices, programs, checksum, lines }
    outcomes := [(2, .receiveAddresses addresses), (0, .saveSteps steps)]
    published := [.receiveAddresses addresses, .saveSteps steps]
    nextTicket := 4
    channel := 3
    service := .idle }

theorem sound_received (programs : Registry Program) (checksum : Option Address.Checksum)
    (depth : Int) (steps : List Step) (addresses : List String) (lines : List LogLine) :
    (received programs checksum depth steps addresses lines).Sound := by
  refine ⟨rfl, rfl, fun _ => rfl, ?_⟩
  intro outcome ho
  rcases List.mem_cons.mp ho with rfl | ho
  · exact (by decide : 2 < 4)
  · obtain rfl := List.mem_singleton.mp ho
    exact (by decide : 0 < 4)

/-- The session while the engine receives a trace. -/
def listening (programs : Registry Program) (checksum : Option Address.Checksum) (depth : Int)
    (steps : List Step) (address binary : Option String) (lines : List LogLine) : Session :=
  let session := { saved programs checksum depth steps address binary lines with turns := [] }
  session.withStore (session.store.subscribe [.next]).2

theorem subscribe_eq (store : Store) (kinds : List EventKind) :
    store.subscribe kinds = (store.nextTicket, (store.subscribe kinds).2) := rfl

theorem put_receiveAddresses (addresses : List String) (lines : List LogLine) :
    (listening programs checksum depth steps address binary lines).put
        (.receiveAddresses addresses)
      = ({ (received programs checksum depth steps addresses lines).calm (.ready 1)
          (.loading 2 address binary) none [.caller] with engine := .receivingTrace }, none) := by
  let session := listening programs checksum depth steps address binary lines
  have hwired : session.store.Wired := ⟨rfl, rfl, rfl⟩
  have hreduce : session.store.bench.slices.reduce (.receiveAddresses addresses) slices
      = ((received programs checksum depth steps addresses lines).bench.slices, none) := rfl
  have hunheard : session.store.hearers (Event.receiveAddresses addresses).kind = [] := rfl
  rw [put, attempt_ok (Store.put_unheard hwired hreduce hunheard)]
  rfl

theorem receiveTrace_of_put {session listening reached : Session} {event : Event}
    (hl : session.withStore (session.store.subscribe [.next]).2 = listening)
    {addresses : List String} (h : callTargets listening.bench.checksum
      (event.payload.steps.getD []) = .ok addresses)
    (hp : (listening.log LogLevel.debug "trace"
      s!"trace saved: {(event.payload.steps.getD []).length} steps, {addresses.length} call targets"
        ).put (.receiveAddresses addresses) = (reached, none)) :
    session.receiveTrace event = reached.awaitRequest session.store.nextTicket := by
  subst hl
  rw [withStore] at h hp
  rw [receiveTrace, subscribe_eq]
  dsimp only
  rw [h]
  dsimp only
  rw [hp]

/-- The engine receives the trace and publishes the call targets. -/
theorem receiveTrace_saved {addresses : List String}
    (h : callTargets checksum steps = .ok addresses)
    (lines : List LogLine) :
    ∃ lines', { saved programs checksum depth steps address binary lines with
        turns := [] }.receiveTrace (.saveSteps steps)
      = (received programs checksum depth steps addresses lines').calm (.ready 1)
          (.loading 2 address binary) none [.caller] := by
  obtain ⟨lines', hlog⟩ : ∃ lines',
      (listening programs checksum depth steps address binary lines).log LogLevel.debug "trace"
          s!"trace saved: {steps.length} steps, {addresses.length} call targets"
        = listening programs checksum depth steps address binary lines' := ⟨_, rfl⟩
  have hput : (listening programs checksum depth steps address binary lines').put
      (.receiveAddresses addresses) = _ := put_receiveAddresses addresses lines'
  rw [← hlog] at hput
  let session := { saved programs checksum depth steps address binary lines with turns := [] }
  have hlistening : session.withStore (session.store.subscribe [.next]).2
      = listening programs checksum depth steps address binary lines := rfl
  have htargets : callTargets (listening programs checksum depth steps address binary
      lines).bench.checksum ((Event.saveSteps steps).payload.steps.getD []) = .ok addresses := h
  refine ⟨lines', (receiveTrace_of_put hlistening htargets hput).trans ?_⟩
  rfl

/-- A trace whose call targets cannot be told halts the engine. -/
theorem receiveTrace_error {fault : Fault} (h : callTargets checksum steps = .error fault)
    (lines : List LogLine) :
    { saved programs checksum depth steps address binary lines with
        turns := [] }.receiveTrace (.saveSteps steps)
      = { listening programs checksum depth steps address binary lines with
          engine := .halted fault } := by
  have htargets : callTargets (listening programs checksum depth steps address binary
      lines).bench.checksum ((Event.saveSteps steps).payload.steps.getD []) = .error fault := h
  rw [listening, withStore] at htargets
  rw [receiveTrace, subscribe_eq]
  dsimp only
  rw [htargets]
  rfl

/-- Events that enter a frame are taken in by the slices, and change nothing else. -/
structure Entered (base : Base) (events : List Event) (base' : Base) : Prop where
  sound : base'.Sound
  core : base'.bench.core = (base.bench.takeAll events).core
  published : base'.published = events.reverse ++ base.published
  active : base'.bench.active = base.bench.active
  service : base'.service = base.service
  nextTicket : base'.nextTicket = base.nextTicket

theorem firstFrame_cases {frame : Event} (h : firstFrame address binary = some frame) :
    (∃ address, frame = .call address) ∨ ∃ binary, frame = .create binary := by
  rw [firstFrame] at h
  split at h
  · exact .inl ⟨_, (Option.some.inj h).symm⟩
  · exact .inr ⟨_, (Option.some.inj h).symm⟩
  · cases h

theorem derived_of_firstFrame : ∀ event ∈ (firstFrame address binary).toList, event.Derived := by
  intro event hevent
  obtain ⟨_, rfl⟩ | ⟨_, rfl⟩ := firstFrame_cases (Option.mem_toList.mp hevent)
  · exact .call _
  · exact .create _

/-- The caller of a load enters the first frame, if there is one. -/
theorem put_frame {base : Base} (h : base.Sound) (ticket : Ticket) (caller : CallerStatus)
    {frame : Event} (hf : firstFrame address binary = some frame) :
    ∃ base', (base.calm (.ready ticket) caller none []).put frame
        = (Base.calm base' (.ready ticket) caller none [], none) ∧ Entered base [frame] base' := by
  let session := base.calm (.ready ticket) caller none []
  have hwired : session.store.Wired := ⟨rfl, h.order, rfl⟩
  -- a call and a deployment only change the call stack, and no listener hears them
  obtain ⟨stack, hreduce, hunheard, hkind⟩ : ∃ stack, session.store.bench.slices.reduce frame slices
      = ({ session.store.bench.slices with callStack := stack }, none) ∧
        session.store.hearers frame.kind = [] ∧
          (frame.kind = .call ∨ frame.kind = .create) := by
    rcases firstFrame_cases hf with ⟨address, rfl⟩ | ⟨binary, rfl⟩
    · exact ⟨_, rfl, rfl, .inl rfl⟩
    · exact ⟨_, rfl, rfl, .inr rfl⟩
  let entered := base.publish { base.bench with slices := { base.bench.slices with
    callStack := stack } } [frame]
  -- the dispatcher waits for commands, and the engine for requests
  have hnobody : ¬ (entered.store (Host.ready ticket).takers).Awaits frame.kind := by
    rw [Base.awaits_store_iff]
    rintro (⟨taker, ht, hk⟩ | ⟨-, hk⟩)
    · obtain rfl := List.mem_singleton.mp ht
      rcases hkind with hkind | hkind
      · rw [hkind] at hk
        exact (by decide : EventKind.call ∉ EventKind.commands) hk
      · rw [hkind] at hk
        exact (by decide : EventKind.create ∉ EventKind.commands) hk
    · rw [hk] at hkind
      rcases hkind with hkind | hkind <;> cases hkind
  have hput : (Store.put frame).run session.store
      = .ok () (entered.store (Host.ready ticket).takers) :=
    (Store.put_unheard hwired hreduce hunheard).trans
      (congrArg _ (Store.deliver_of_not_awaits hnobody))
  have hafter : base.bench.slices.after [frame] = { base.bench.slices with callStack := stack } :=
    congrArg Prod.fst hreduce
  refine ⟨entered, ?_, ⟨⟨h.loaded, h.order, h.held, h.fresh⟩, ?_, rfl, rfl, rfl, rfl⟩⟩
  · rw [put, attempt_ok hput]
    rfl
  · rw [Workbench.takeAll, hafter]
    rfl

theorem Entered.trans {base base' base'' : Base} {first second : List Event}
    (h : Entered base first base') (h' : Entered base' second base'') :
    Entered base (first ++ second) base'' := by
  refine ⟨h'.sound, ?_, ?_, h'.active.trans h.active, h'.service.trans h.service,
    h'.nextTicket.trans h.nextTicket⟩
  · have hcore : (base'.bench.takeAll second).core = base'.bench.core.takeAll second := rfl
    rw [h'.core, hcore, h.core, Workbench.takeAll_append]
    rfl
  · rw [h'.published, h.published, List.reverse_append, List.append_assoc]

theorem log_answer {base : Base} (h : base.Sound) (host : Host) (caller : CallerStatus)
    (message : String) (reply : Reply) :
    ∃ base',
      ((base.calm host caller none []).log LogLevel.info "session" message).answer (.ok reply)
        = Base.calm base' host (.answered (.ok reply)) none [] ∧ Entered base [] base' := by
  exact ⟨base.on (base.bench.log LogLevel.info "session" message), rfl,
    ⟨h.logged _, rfl, rfl, rfl, rfl, rfl⟩⟩

/-- The caller of a load is told the call targets. -/
theorem finishLoad_calm {base : Base} (h : base.Sound) (ticket : Ticket) (caller : CallerStatus)
    (addresses : List String) :
    ∃ base', (base.calm (.ready ticket) caller none []).finishLoad address binary
        (.receiveAddresses addresses)
          = Base.calm base' (.ready ticket) (.answered (.ok (.targets addresses))) none [] ∧
      Entered base (firstFrame address binary).toList base' := by
  have hneed : Event.need "addresses" (Event.receiveAddresses addresses).payload.addresses
      = .ok addresses := rfl
  rw [finishLoad]
  -- the outermost frame is published first, if there is an address or a program to enter
  cases hf : firstFrame address binary with
  | none =>
    dsimp only
    rw [hneed]
    exact log_answer h (.ready ticket) caller _ _
  | some frame =>
    obtain ⟨base', hput, hentered⟩ := put_frame h ticket caller hf
    dsimp only
    rw [hput, hneed]
    dsimp only
    obtain ⟨base'', hanswer, hentered'⟩ := log_answer hentered.sound (.ready ticket) caller
      (toString "loaded " ++ toString base'.bench.recording.steps.length ++ toString " steps, "
        ++ toString addresses.length ++ toString " call target(s)") (.targets addresses)
    exact ⟨base'', hanswer, hentered.trans hentered'⟩

/-! ### Loading -/

theorem step_saved (lines : List LogLine) :
    (saved programs checksum depth steps address binary lines).step?
      = some ({ saved programs checksum depth steps address binary lines with
          turns := [] }.receiveTrace (.saveSteps steps)) := rfl

theorem turnLimit_saved (lines : List LogLine) :
    (saved programs checksum depth steps address binary lines).turnLimit
      = 64 * (steps.length + 4) := rfl

/-- A session that rests before the first of some steps. -/
structure Fresh (steps : List Step) (session : Session) : Prop where
  exists_rest : ∃ base ticket, session = Base.rest base (.ready ticket) ∧
    base.Standing (.ready ticket) ∧ base.service = .idle ∧ base.bench.recording.cursor = 0 ∧
    base.bench.recording.steps = steps

theorem Fresh.steps_eq {session : Session} (h : Fresh steps session) :
    session.bench.recording.steps = steps := by
  obtain ⟨base, ticket, rfl, -, -, -, hsteps⟩ := h.exists_rest
  exact hsteps

/-- A trace whose call targets can be told is loaded: the engine has received it, the caller has
entered the first frame, and the session rests. -/
theorem exists_landed {addresses : List String} (h : callTargets checksum steps = .ok addresses)
    (programs : Registry Program) (depth : Int) (address binary : Option String) :
    ∃ lines base ticket, (new programs checksum depth).perform (.load steps address binary)
        = (Base.rest base (.ready ticket), ⟨some (.ok (.targets addresses)), false⟩) ∧
      base.Standing (.ready ticket) ∧
      Entered (received programs checksum depth steps addresses lines)
        (firstFrame address binary).toList base := by
  rw [perform, ask, load_new]
  generalize (opened programs checksum depth).bench.lines = lines
  obtain ⟨lines', hreceive⟩ := receiveTrace_saved h lines
  have htrace := (step_saved lines).trans (congrArg some hreceive)
  let received := received programs checksum depth steps addresses lines'
  obtain ⟨base, hfinish, hentered⟩ := finishLoad_calm
    (sound_received programs checksum depth steps addresses lines') 1
    (.loading 2 address binary) addresses
  -- two turns: the engine receives the trace, and the caller gets the call targets
  have hcaller : (received.calm (.ready 1) (.loading 2 address binary) none [.caller]).step?
      = some (base.calm (.ready 1) (.answered (.ok (.targets addresses))) none []) :=
    (step_calm _ _ _ _).trans (congrArg some hfinish)
  have hlimit : 2 ≤ (saved programs checksum depth steps address binary lines).turnLimit := by
    rw [turnLimit_saved]
    omega
  have hsettle := (Steps.cons htrace (.single hcaller)).settle rfl hlimit
  refine ⟨lines', base, 1, conclude_answered hsettle, ⟨hentered.sound, hentered.active, ?_, ?_⟩,
    hentered⟩
  · rw [hentered.service]
    exact Service.idle_ne_busy
  · -- four tickets have been given: to the engine, the dispatcher, the load and the requests
    rintro ticket hticket
    obtain rfl := Host.ready.inj hticket
    rw [hentered.nextTicket]
    exact (by decide : 1 < 4)

/-- It rests before its first step. -/
theorem exists_load {addresses : List String} (h : callTargets checksum steps = .ok addresses)
    (programs : Registry Program) (depth : Int) (address binary : Option String) :
    ∃ session, (new programs checksum depth).perform (.load steps address binary)
        = (session, ⟨some (.ok (.targets addresses)), false⟩) ∧ Fresh steps session := by
  obtain ⟨lines, base, ticket, hperform, hstanding, hentered⟩ :=
    exists_landed h programs depth address binary
  have hrecording : base.bench.recording
      = (received programs checksum depth steps addresses lines).bench.recording :=
    (Workbench.recording_congr hentered.core).trans
      (Slices.recording_after_derived derived_of_firstFrame _)
  refine ⟨base.rest (.ready ticket), hperform, base, ticket, rfl, hstanding,
    hentered.service, ?_, ?_⟩
  · rw [hrecording]
    rfl
  · rw [hrecording]
    rfl

/-- A trace whose call targets can be told is loaded, and they are the reply. -/
theorem perform_load {addresses : List String} (h : callTargets checksum steps = .ok addresses)
    (programs : Registry Program) (depth : Int) (address binary : Option String) :
    (new programs checksum depth).perform (.load steps address binary)
      = (((new programs checksum depth).perform (.load steps address binary)).1,
          ⟨some (.ok (.targets addresses)), false⟩) := by
  obtain ⟨session, hperform, -⟩ := exists_load h programs depth address binary
  rw [hperform]

/-- A trace whose call targets cannot be told leaves the caller stuck. -/
theorem load_stuck {fault : Fault} (h : callTargets checksum steps = .error fault)
    (programs : Registry Program) (depth : Int) (address binary : Option String) :
    ((new programs checksum depth).perform (.load steps address binary)).2.stuck = true := by
  rw [perform, ask, load_new]
  generalize (opened programs checksum depth).bench.lines = lines
  have hhalt : (saved programs checksum depth steps address binary lines).step?
      = some { listening programs checksum depth steps address binary lines with
          engine := .halted fault } :=
    (step_saved lines).trans (congrArg some (receiveTrace_error h lines))
  have hlimit : 1 ≤ (saved programs checksum depth steps address binary lines).turnLimit := by
    rw [turnLimit_saved]
    omega
  -- the engine halts before it publishes anything, and the caller waits for the call targets
  have hsettle := (Steps.single hhalt).settle rfl hlimit
  rw [conclude, hsettle]
  rfl

/-- A trace that has been loaded leaves the session at rest before its first step. -/
theorem fresh_of_load {session : Session} {reply : Reply}
    (h : (new programs checksum depth).perform (.load steps address binary)
      = (session, ⟨some (.ok reply), false⟩)) : Fresh steps session := by
  cases htargets : callTargets checksum steps with
  | error fault =>
    have hstuck := load_stuck htargets programs depth address binary
    rw [h] at hstuck
    cases hstuck
  | ok addresses =>
    obtain ⟨session', hperform, hfresh⟩ := exists_load htargets programs depth address binary
    rw [h] at hperform
    obtain ⟨rfl, -⟩ := Prod.mk.inj hperform
    exact hfresh

/-- The first frame is all that the state of a loaded session has beside its trace. -/
theorem slices_of_load {session : Session} {reply : Reply}
    (h : (new programs checksum depth).perform (.load steps address binary)
      = (session, ⟨some (.ok reply), false⟩)) :
    ∃ addresses, session.bench.slices
      = Slices.after { savedSlices depth steps with
          recording := { Recording.ofSteps steps with addresses } }
        (firstFrame address binary).toList := by
  -- a load whose targets cannot be found gives no reply
  cases htargets : callTargets checksum steps with
  | error fault =>
    have hstuck := load_stuck htargets programs depth address binary
    rw [h] at hstuck
    cases hstuck
  | ok addresses =>
    obtain ⟨lines, base, ticket, hperform, -, hentered⟩ :=
      exists_landed htargets programs depth address binary
    rw [h] at hperform
    obtain ⟨rfl, -⟩ := Prod.mk.inj hperform
    exact ⟨addresses, Workbench.slices_congr hentered.core⟩

/-- A trace that is read from its log entries is loaded as its steps are. -/
theorem load_of_loadLogs {session : Session} {reply : Reply} {entries : List Json}
    (h : (new programs checksum depth).perform (.loadLogs entries address binary)
      = (session, ⟨some (.ok reply), false⟩)) :
    ∃ steps, (new programs checksum depth).perform (.load steps address binary)
      = (session, ⟨some (.ok reply), false⟩) := by
  rw [perform, ask] at h
  cases hsteps : StructLog.toSteps entries with
  | error fault =>
    rw [hsteps] at h
    have hsettle : ((new programs checksum depth).answer (.error fault)).settle
        = (new programs checksum depth).answer (.error fault) :=
      (Steps.refl _).settle rfl (Nat.zero_le _)
    rw [conclude, hsettle] at h
    have hresult := congrArg (fun r : Session × Outcome => r.2.result) h
    cases hresult
  | ok steps =>
    rw [hsteps] at h
    exact ⟨steps, h⟩

/-- A session that has just loaded a trace, from its steps or from its log entries. -/
inductive Loaded (session : Session) : Prop
  | steps {programs : Registry Program} {checksum : Option Address.Checksum} {depth : Int}
      {steps : List Step}
      {address binary : Option String} {reply : Reply}
      (h : (new programs checksum depth).perform (.load steps address binary)
        = (session, ⟨some (.ok reply), false⟩))
  | entries {programs : Registry Program} {checksum : Option Address.Checksum} {depth : Int}
      {entries : List Json}
      {address binary : Option String} {reply : Reply}
      (h : (new programs checksum depth).perform (.loadLogs entries address binary)
        = (session, ⟨some (.ok reply), false⟩))

theorem loaded_of_callTargets {addresses : List String}
    (h : callTargets checksum steps = .ok addresses) (programs : Registry Program) (depth : Int)
    (address binary : Option String) :
    Loaded ((new programs checksum depth).perform (.load steps address binary)).1 :=
  .steps (perform_load h programs depth address binary)

theorem Loaded.exists_load {session : Session} (h : Loaded session) :
    ∃ programs checksum depth steps address binary reply,
      (new programs checksum depth).perform (.load steps address binary)
        = (session, ⟨some (.ok reply), false⟩) := by
  cases h with
  | steps h => exact ⟨_, _, _, _, _, _, _, h⟩
  | entries h =>
    obtain ⟨steps, h⟩ := load_of_loadLogs h
    exact ⟨_, _, _, steps, _, _, _, h⟩

/-- A session that has just loaded a trace, and was given an address or code to start with. -/
inductive LoadedWith (address binary : Option String) (session : Session) : Prop
  | steps {programs : Registry Program} {checksum : Option Address.Checksum} {depth : Int}
      {steps : List Step}
      {reply : Reply}
      (h : (new programs checksum depth).perform (.load steps address binary)
        = (session, ⟨some (.ok reply), false⟩))
  | entries {programs : Registry Program} {checksum : Option Address.Checksum} {depth : Int}
      {entries : List Json}
      {reply : Reply}
      (h : (new programs checksum depth).perform (.loadLogs entries address binary)
        = (session, ⟨some (.ok reply), false⟩))

/-- The call stack before the first step: the frame of the address, or else that of the code, unless
they are empty. -/
inductive FirstStack (address binary : Option String) : CallStack → Prop
  | call {text : String} (h : address = some text) (hne : text ≠ "") :
      FirstStack address binary (CallStack.push (some text) none {})
  | create {text : String} (ha : ∀ other, address = some other → other = "")
      (h : binary = some text) (hne : text ≠ "") :
      FirstStack address binary (CallStack.push none (some text) {})
  | nothing (ha : ∀ other, address = some other → other = "")
      (hb : ∀ other, binary = some other → other = "") : FirstStack address binary {}

theorem LoadedWith.loaded {session : Session} (h : LoadedWith address binary session) :
    Loaded session := by
  cases h with
  | steps h => exact .steps h
  | entries h => exact .entries h

theorem LoadedWith.firstStack {session : Session} (h : LoadedWith address binary session) :
    FirstStack address binary session.bench.slices.callStack := by
  obtain ⟨programs, checksum, depth, steps, reply, hload⟩ :
      ∃ programs checksum depth steps reply,
        (new programs checksum depth).perform (.load steps address binary)
          = (session, ⟨some (.ok reply), false⟩) := by
    cases h with
    | steps h => exact ⟨_, _, _, _, _, h⟩
    | entries h =>
      obtain ⟨steps, h⟩ := load_of_loadLogs h
      exact ⟨_, _, _, steps, _, h⟩
  obtain ⟨addresses, hslices⟩ := slices_of_load hload
  rw [hslices, firstFrame]
  -- an empty text is as good as none
  have hempty : ∀ {given : Option String}, given.filter (· != "") = none →
      ∀ other, given = some other → other = "" := by
    rintro _ hnone other rfl
    simpa [Option.filter] using hnone
  cases haddress : address.filter (· != "") with
  | some text =>
    obtain ⟨hgiven, hne⟩ := Option.filter_eq_some_iff.mp haddress
    exact .call hgiven (by simpa using hne)
  | none =>
    cases hbinary : binary.filter (· != "") with
    | some text =>
      obtain ⟨hgiven, hne⟩ := Option.filter_eq_some_iff.mp hbinary
      exact .create (hempty haddress) hgiven (by simpa using hne)
    | none => exact .nothing (hempty haddress) (hempty hbinary)

theorem Loaded.fresh {session : Session} (h : Loaded session) : ∃ steps, Fresh steps session := by
  obtain ⟨programs, checksum, depth, steps, address, binary, reply, h⟩ := h.exists_load
  exact ⟨steps, fresh_of_load h⟩

end Session

end TraceDebugger
