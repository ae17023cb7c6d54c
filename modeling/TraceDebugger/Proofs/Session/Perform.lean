/-
The turns of a command.

Between two requests a session is at rest (`Base.Standing`).  The turns that a command takes are
counted here: two for each step that its pursuit passes (`steps_lap`, `steps_runs`), and a few at
the end (`steps_end`, `steps_crash`).

* `Steps.settle` — a session settles where so many turns take it, if they are not more than allowed;
* `steps_runs` — a pursuit that comes to its end;
* `steps_stalls` — a pursuit that comes to a step that cannot be processed.
-/
import TraceDebugger.Proofs.Session.Cycle

namespace TraceDebugger

namespace Session

/-! ### Turns in a row -/

/-- So many turns take one session to another one. -/
inductive Steps : Nat → Session → Session → Prop
  | refl (session : Session) : Steps 0 session session
  | cons {count : Nat} {session next last : Session} (h : session.step? = some next)
      (hr : Steps count next last) : Steps (count + 1) session last

theorem Steps.single {session next : Session} (h : session.step? = some next) :
    Steps 1 session next := .cons h (.refl _)

theorem Steps.trans {first second : Nat} {session middle last : Session}
    (h : Steps first session middle) (h' : Steps second middle last) :
    Steps (first + second) session last := by
  induction h with
  | refl => rwa [Nat.zero_add]
  | cons hs _ ih => rw [Nat.add_right_comm]; exact .cons hs (ih h')

theorem runFor_of_turns_nil {session : Session} (h : session.turns = []) (limit : Nat) :
    session.runFor limit = session := by
  cases limit with
  | zero => rfl
  | succ limit => rw [runFor, step?, h]

theorem Steps.runFor {count : Nat} {session last : Session} (h : Steps count session last)
    (limit : Nat) : session.runFor (count + limit) = last.runFor limit := by
  induction h with
  | refl => rw [Nat.zero_add]
  | cons hs _ ih => rw [Nat.add_right_comm, Session.runFor, hs]; exact ih

/-- At most so many turns are so many turns, or fewer. -/
theorem exists_steps_runFor (limit : Nat) : ∀ session : Session,
    ∃ count, Steps count session (session.runFor limit) := by
  induction limit with
  | zero => exact fun session => ⟨0, .refl session⟩
  | succ limit ih =>
    intro session
    rw [Session.runFor]
    cases hn : session.step? with
    | none => exact ⟨0, .refl session⟩
    | some next =>
      obtain ⟨count, hsteps⟩ := ih next
      exact ⟨count + 1, .cons hn hsteps⟩

/-- A session settles where nothing can move, if that is within its turns. -/
theorem Steps.settle {count : Nat} {session last : Session} (h : Steps count session last)
    (hl : last.turns = []) (hc : count ≤ session.turnLimit) : session.settle = last := by
  rw [Session.settle, ← Nat.add_sub_of_le hc, h.runFor, runFor_of_turns_nil hl]

end Session

/-- The invariant of a session at rest. -/
structure Base.Standing (base : Base) (host : Host) : Prop where
  sound : base.Sound
  active : base.bench.active = none
  service : base.service ≠ .busy
  ticket : ∀ ticket, host = .ready ticket → ticket < base.nextTicket

namespace Session

variable {base : Base} {job : Job} {turns : List Turn}

theorem step_turn {session : Session} {turn : Turn} (h : session.turns = turn :: turns) :
    session.step? = some ({ session with turns }.takeTurn turn) := by
  rw [step?, h]

theorem step_work (turn : Turn) :
    (base.work job (turn :: turns)).step? = some ((base.work job turns).takeTurn turn) := rfl

theorem step_calm (host : Host) (caller : CallerStatus) (running : Option Command) (turn : Turn) :
    (base.calm host caller running (turn :: turns)).step?
      = some ((base.calm host caller running turns).takeTurn turn) := rfl

/-! ### A step -/

/-- What remains true of a command under way while it passes steps: where it has come to, and what
it has published. -/
structure Passed (base : Base) (job : Job) (events : List Event) (reached : Workbench)
    (base' : Base) : Prop where
  sound : job.Sound base'
  service : base'.service = .idle
  core : base'.bench.core = reached.core
  published : base'.published = events.reverse ++ base.published

/-- A pursuit that goes on passes a step in two turns. -/
theorem steps_lap (h : job.Sound base) (hi : base.service = .idle) {bench : Workbench}
    (hcore : base.bench.core = bench.core) {queued : Option Pursuit}
    (hq : job.cycle.run = .queued queued) (hs : job.cycle.stopping = false) {more : Pursuit}
    (hm : resumption base.bench job.cycle queued = .ok (some more)) {events : List Event}
    (hp : bench.passage = .ok events) :
    ∃ base', Steps 2 (base.work job [.run .own])
        (base'.work (job.withRun (.queued (some more))) [.run .own]) ∧
      Passed base (job.withRun (.queued (some more))) (.next :: events) (bench.past events)
        base' := by
  rw [← Workbench.passage_congr hcore] at hp
  have hr := Job.takers_of_queued hq
  let waiting := job.withRun (.waiting base.nextTicket more)
  have hasked : base.asked.Sound := h.sound.asked hi
  have hwaiting : waiting.Sound base.asked := h.wait hasked rfl more
  -- in its turn the pursuit asks for a step, which the engine processes in the next one
  have hrun : (base.work job []).takeTurn (.run .own) = base.asked.work waiting [.engine] :=
    (resumeRun_on hq hs hm).trans (requestStep_idle h hi hr more)
  obtain ⟨lines, hserve⟩ := serve_awaited hwaiting rfl rfl hp
  let served := (base.asked.stepped lines events).took base.nextTicket base.bench.closing
  have hserved : served.Sound :=
    (hasked.stepped rfl hp lines).took (Nat.lt_succ_self base.nextTicket) _
  refine ⟨served, ?_, ⟨?_, rfl, Workbench.core_past_congr hcore events, ?_⟩⟩
  · refine .cons (step_work _) ?_
    rw [hrun]
    refine .cons (step_work _) ?_
    show Steps 0 ((base.asked.work waiting []).serve) _
    rw [hserve]
    exact .refl _
  · exact (h.withRun rfl).move hserved (Nat.le_succ _)
  · show events.reverse ++ ([.next] ++ base.published) = (Event.next :: events).reverse ++ _
    rw [List.reverse_cons, List.append_assoc]

/-- A pursuit that goes on to a step that cannot be processed waits for ever after. -/
theorem steps_stall (h : job.Sound base) (hi : base.service = .idle) {queued : Option Pursuit}
    (hq : job.cycle.run = .queued queued) (hs : job.cycle.stopping = false) {more : Pursuit}
    (hm : resumption base.bench job.cycle queued = .ok (some more)) {fault : Fault}
    (hp : base.bench.passage = .error fault) :
    ∃ base' ticket, Steps 2 (base.work job [.run .own])
        (base'.work (job.withRun (.waiting ticket more)) []) ∧
      (job.withRun (.waiting ticket more)).Sound base' ∧ base'.service = .halted fault := by
  have hr := Job.takers_of_queued hq
  let waiting := job.withRun (.waiting base.nextTicket more)
  have hasked : base.asked.Sound := h.sound.asked hi
  have hwaiting : waiting.Sound base.asked := h.wait hasked rfl more
  have hrun : (base.work job []).takeTurn (.run .own) = base.asked.work waiting [.engine] :=
    (resumeRun_on hq hs hm).trans (requestStep_idle h hi hr more)
  have hbusy : base.asked.service = .busy := rfl
  -- the engine halts in its turn, so nobody tells the pursuit that its step is over
  obtain ⟨lines, events, hderived, hserve⟩ := serve_stall hasked hbusy hp
  refine ⟨base.asked.stalled lines events fault, base.nextTicket, ?_, ?_, rfl⟩
  · refine .cons (step_work _) ?_
    rw [hrun]
    refine .cons (step_work _) ?_
    show Steps 0 ((base.asked.work waiting []).serve) _
    rw [hserve]
    exact .refl _
  · exact hwaiting.move (hasked.stalled hderived lines fault) (Nat.le_refl _)

/-! ### A pursuit -/

theorem Passed.trans {first second : List Event} {middle reached : Workbench} {job' : Job}
    {base' base'' : Base} (h : Passed base job first middle base')
    (h' : Passed base' job' second reached base'') :
    Passed base job' (first ++ second) reached base'' := by
  refine ⟨h'.sound, h'.service, h'.core, ?_⟩
  rw [h'.published, h.published, List.reverse_append, List.append_assoc]

/-- A pursuit notices that it has come where it wanted. -/
theorem step_over (h : job.Sound base) (hi : base.service = .idle) {pursuit : Pursuit}
    (hq : job.cycle.run = .queued (some pursuit)) (hs : job.cycle.stopping = false)
    (hn : base.bench.proceed pursuit = .ok none) :
    ∃ base', Steps 1 (base.work job [.run .own])
        (base'.work (job.withRun (.finished none)) [.race .own]) ∧
      Passed base (job.withRun (.finished none)) [] base.bench base' := by
  obtain ⟨lines, hlast⟩ := resumeRun_over hq hs hn []
  have hsound := h.sound.logged lines
  refine ⟨base.on (base.bench.logged lines), .single ?_, ?_, hi, rfl, rfl⟩
  · exact (step_work _).trans (congrArg some hlast)
  · exact (h.withRun rfl).move hsound (Nat.le_refl _)

/-- A pursuit fails to begin, or to look where it has come to. -/
theorem step_failed {queued : Option Pursuit} (hq : job.cycle.run = .queued queued)
    (hs : job.cycle.stopping = false) {fault : Fault}
    (hf : resumption base.bench job.cycle queued = .error fault) :
    Steps 1 (base.work job [.run .own])
      (base.work (job.withRun (.finished (some fault))) [.race .own]) :=
  .single ((step_work _).trans (congrArg some (resumeRun_failed hq hs hf [])))

/-- What a session publishes while a pursuit runs: the engine is asked before each step. -/
def askedFor (blocks : List (List Event)) : List Event := blocks.flatMap (.next :: ·)

theorem Passed.reach {events : List Event} {middle reached : Workbench} {base' : Base}
    (h : Passed base job events middle base') (hr : middle.core = reached.core) :
    Passed base job events reached base' :=
  ⟨h.sound, h.service, h.core.trans hr, h.published⟩

/-- A pursuit that comes to its end takes two turns for each step, and one to notice the end. -/
theorem steps_runs {bench reached : Workbench} {pursuit : Pursuit} {blocks : List (List Event)}
    {fault : Option Fault} (hr : Workbench.Runs bench pursuit blocks reached fault) :
    ∀ {base : Base} {job : Job} {queued : Option Pursuit}, job.Sound base → base.service = .idle →
      base.bench.core = bench.core → job.cycle.run = .queued queued → job.cycle.stopping = false →
      resumption base.bench job.cycle queued = .ok (some pursuit) →
      ∃ base', Steps (2 * blocks.length + 1) (base.work job [.run .own])
          (base'.work (job.withRun (.finished fault)) [.race .own]) ∧
        Passed base (job.withRun (.finished fault)) (askedFor blocks) reached base' := by
  -- induction on the pursuit: each step is a lap, and the turn after the last one notices the end
  induction hr with
  | @ended _ _ events hp hn =>
    intro base job queued h hi hcore hq hs hm
    obtain ⟨base', hsteps, hpassed⟩ := steps_lap h hi hcore hq hs hm hp
    rw [← Workbench.proceed_congr hpassed.core] at hn
    obtain ⟨base'', hlast, hpassed'⟩ := step_over hpassed.sound hpassed.service rfl hs hn
    refine ⟨base'', hsteps.trans hlast, ?_⟩
    have hblock : askedFor [events] = .next :: events ++ [] := rfl
    rw [hblock]
    exact hpassed.trans (hpassed'.reach hpassed.core)
  | @failed _ pursuit events _ hp hf =>
    intro base job queued h hi hcore hq hs hm
    obtain ⟨base', hsteps, hpassed⟩ := steps_lap h hi hcore hq hs hm hp
    rw [← Workbench.proceed_congr hpassed.core] at hf
    have hq' : (job.withRun (.queued (some pursuit))).cycle.run = .queued (some pursuit) := rfl
    refine ⟨base', hsteps.trans (step_failed hq' hs hf), hpassed.sound.withRun rfl,
      hpassed.service, hpassed.core, ?_⟩
    have hblock : askedFor [events] = .next :: events := List.append_nil _
    rw [hblock]
    exact hpassed.published
  | @on _ pursuit events more blocks _ _ hp hgo _ ih =>
    intro base job queued h hi hcore hq hs hm
    obtain ⟨base', hsteps, hpassed⟩ := steps_lap h hi hcore hq hs hm hp
    rw [← Workbench.proceed_congr hpassed.core] at hgo
    obtain ⟨base'', hrest, hpassed'⟩ := ih hpassed.sound hpassed.service hpassed.core rfl hs hgo
    refine ⟨base'', ?_, hpassed.trans hpassed'⟩
    have hcount : 2 + (2 * blocks.length + 1) = 2 * (events :: blocks).length + 1 := by
      rw [List.length_cons]
      omega
    exact hcount ▸ hsteps.trans hrest

/-- A pursuit that comes to a step that cannot be processed is left waiting. -/
theorem steps_stalls {bench : Workbench} {pursuit : Pursuit} {fault : Fault}
    (hst : Workbench.Stalls bench pursuit fault) :
    ∀ {base : Base} {job : Job} {queued : Option Pursuit}, bench.Poised → job.Sound base →
      base.service = .idle → base.bench.core = bench.core → job.cycle.run = .queued queued →
      job.cycle.stopping = false →
      resumption base.bench job.cycle queued = .ok (some pursuit) →
      ∃ base' ticket more count, count ≤ 2 * (bench.recording.remaining + 1) ∧
        Steps count (base.work job [.run .own])
          (base'.work (job.withRun (.waiting ticket more)) []) ∧
        (job.withRun (.waiting ticket more)).Sound base' ∧ base'.service = .halted fault := by
  induction hst with
  | @here _ more _ hp =>
    intro base job queued _ h hi hcore hq hs hm
    rw [← Workbench.passage_congr hcore] at hp
    obtain ⟨base', ticket, hsteps, hsound, hhalted⟩ := steps_stall h hi hq hs hm hp
    exact ⟨base', ticket, more, 2, by omega, hsteps, hsound, hhalted⟩
  | @on bench _ events more _ hp hgo _ ih =>
    intro base job queued hpoised h hi hcore hq hs hm
    have hpos := Workbench.remaining_pos_of_proceed (hpoised.past hp).loaded hgo
    -- the step that was passed pays for its two turns
    have hless : (bench.past events).recording.remaining + 1 ≤ bench.recording.remaining := by
      rw [Recording.remaining, Workbench.cursor_past hp, Workbench.steps_past hp] at hpos ⊢
      rw [Recording.remaining]
      omega
    obtain ⟨base', hsteps, hpassed⟩ := steps_lap h hi hcore hq hs hm hp
    rw [← Workbench.proceed_congr hpassed.core] at hgo
    obtain ⟨base'', ticket, last, count, hcount, hrest, hsound, hhalted⟩ :=
      ih (hpoised.past hp) hpassed.sound hpassed.service hpassed.core rfl hs hgo
    exact ⟨base'', ticket, last, 2 + count, by omega, hsteps.trans hrest, hsound, hhalted⟩

/-! ### The end -/

/-- What is left of a command that is over: where it has come to, and what it has published. -/
structure Left (base : Base) (host : Host) (reached : Workbench) (events : List Event)
    (base' : Base) : Prop where
  standing : base'.Standing host
  service : base'.service = base.service
  core : base'.bench.core = reached.core
  published : base'.published = events.reverse ++ base.published

theorem left_closed (h : job.Sound base) (hb : base.service ≠ .busy) (lines : List LogLine)
    (interrupted : Bool) :
    Left base (.ready base.nextTicket) base.bench [.endStep job.cycle.command interrupted]
      ((base.on (base.bench.during none lines)).closed job.reply job.cycle.command
        interrupted).ticketed := by
  refine ⟨⟨?_, rfl, hb, ?_⟩, rfl, rfl, rfl⟩
  · exact ((h.sound.during none lines).closed h.reply_lt_next _ _).ticketed
  · rintro ticket hticket
    obtain rfl := Host.ready.inj hticket
    exact Nat.lt_succ_self _

theorem steps_caller {base : Base} {host : Host} {reply : Ticket} {running : Option Command}
    {command : Command} {interrupted : Bool}
    (ho : (base.store []).outcome? reply = some (.endStep command interrupted)) :
    Steps 1 (base.calm host (.commanding reply true) running [.caller])
      (base.calm host (.answered (verdict interrupted host)) none []) := by
  refine .single ((step_calm _ _ _ _).trans ?_)
  rw [takeTurn, resumeCaller_commanding ho]

/-- A cycle that ends without a fault is followed by an answer. -/
theorem steps_end (h : job.Sound base) (hb : base.service ≠ .busy) {interrupted : Bool}
    (he : job.cycle.run.ended = some (interrupted, none)) :
    ∃ base', Steps 3 (base.work job [.cycle .own])
        (base'.calm (.ready base.nextTicket) (.answered (.ok (.flag !interrupted))) none []) ∧
      Left base (.ready base.nextTicket) base.bench [.endStep job.cycle.command interrupted]
        base' := by
  obtain ⟨lines, hcycle⟩ := resumeCycle_ok h he []
  refine ⟨_, .cons (step_work _) ?_, left_closed h hb lines interrupted⟩
  have houtcome := Base.outcome?_closed (base.on (base.bench.during none lines)) job.reply
    job.cycle.command interrupted
  rw [takeTurn, hcycle]
  exact .cons (step_calm _ _ _ _) (steps_caller houtcome)

/-- A cycle that ends by a fault is followed by that. -/
theorem steps_crash (h : job.Sound base) (hb : base.service ≠ .busy) {interrupted : Bool}
    {fault : Fault} (he : job.cycle.run.ended = some (interrupted, some fault)) :
    ∃ base' : Base, Steps 4 (base.work job [.cycle .own])
        (base'.calm (.crashed fault) (.answered (.error fault)) none []) ∧
      base'.Standing (.crashed fault) := by
  obtain ⟨lines, hcycle⟩ := resumeCycle_fault h he []
  have hsound := (h.sound.during none lines).closed h.reply_lt_next job.cycle.command interrupted
  refine ⟨_, .cons (step_work _) ?_, ⟨hsound, rfl, hb, fun _ hticket => by cases hticket⟩⟩
  have houtcome := Base.outcome?_closed (base.on (base.bench.during none lines)) job.reply
    job.cycle.command interrupted
  rw [takeTurn, hcycle]
  -- the end is told twice, and the second notice changes nothing
  refine .cons (step_calm _ _ _ _) (.cons (step_calm _ _ _ _) ?_)
  exact steps_caller houtcome

end Session

end TraceDebugger
