/-
What comes of a command.

A session at rest is given a command, takes its turns and answers.  Four things can happen.

* `perform_runs` — the pursuit comes to its end: the caller is told so, and the session rests where
  the pursuit has come to, having published the steps on the way;
* `perform_unbegun`, `perform_fails` — the pursuit cannot begin, or cannot tell where it has come
  to: the caller is told the fault, and the dispatcher has crashed;
* `stranded_of_stalls`, `stranded_of_over` — the pursuit comes to a step that cannot be processed,
  or the engine has halted before: nothing can move any more, and the caller waits until it is
  released;
* `perform_crashed` — the dispatcher had crashed before: the caller is told its fault.
-/
import TraceDebugger.Proofs.Session.Perform

namespace TraceDebugger

namespace Session

variable {base : Base} {job : Job}

/-- A command has begun. -/
structure Begun (base : Base) (command : Command) (event : Event) (base' : Base) (job : Job) :
    Prop where
  sound : job.Sound base'
  service : base'.service = base.service
  core : base'.bench.core = base.bench.core
  published : base'.published = [event, .beginStep command].reverse ++ base.published
  cycle : job.cycle = { command, event, interrupt := job.cycle.interrupt }
  unheard : job.heard = false

section
variable {base' : Base} {command : Command} {event : Event}

theorem Begun.queued (h : Begun base command event base' job) : job.cycle.run = .queued none := by
  rw [h.cycle]

theorem Begun.stopping (h : Begun base command event base' job) : job.cycle.stopping = false := by
  rw [h.cycle]

theorem Begun.settled (h : Begun base command event base' job) : job.cycle.settled = false := by
  rw [h.cycle]

theorem Begun.resumption_eq (h : Begun base command event base' job) {begun : Except Fault Pursuit}
    (hb : base.bench.begin event command = begun) :
    resumption base'.bench job.cycle none = begun.map some := by
  rw [resumption, h.cycle, Workbench.begin_congr h.core, hb]

end

theorem steps_begin {ticket : Ticket} (h : base.Standing (.ready ticket)) {command : Command}
    {event : Event} (hk : event.kind = .command command) :
    ∃ base' job, Steps 1 ((base.rest (.ready ticket)).give command event)
        (base'.work job [.run .own]) ∧ Begun base command event base' job := by
  have hgiven := give_ready h.sound h.active (h.ticket ticket rfl) hk
  -- the session as it is given the command, and as it is when the cycle has begun
  let given := ((base.publish base.bench [event]).took ticket event).ticketed
  have hsound : given.Sound := ((h.sound.note [event]).took (h.ticket ticket rfl) event).ticketed
  obtain ⟨lines, hbegin⟩ := takeTurn_command hsound base.nextTicket hk []
  let bench := given.bench.during (some command) lines
  let begun := (given.publish bench [.beginStep command]).ticketed
  have hbegun : begun.Sound :=
    ((hsound.during (some command) lines).note [.beginStep command]).ticketed
  let cycle : Cycle := { command, event, interrupt := given.nextTicket }
  refine ⟨begun, { reply := base.nextTicket, cycle }, .single ?_,
    ⟨⟨hbegun, ?_, ?_, ?_⟩, rfl, rfl, rfl, rfl, rfl⟩⟩
  · rw [hgiven]
    exact (step_turn rfl).trans (congrArg some hbegin)
  · exact Nat.lt_succ_self _
  · exact Nat.lt_succ_self _
  · intro _ _ hw
    cases hw

theorem turnLimit_give {ticket : Ticket} (h : base.Standing (.ready ticket)) {command : Command}
    {event : Event} (hk : event.kind = .command command) :
    ((base.rest (.ready ticket)).give command event).turnLimit
      = 64 * (base.bench.recording.steps.length + 4) := by
  rw [give_ready h.sound h.active (h.ticket ticket rfl) hk]
  rfl

/-- An answer is collected once nothing can move any more. -/
theorem conclude_answered {session : Session} {host : Host} {result : Except Fault Reply}
    (h : session.settle = base.calm host (.answered result) none []) :
    session.conclude = (base.rest host, ⟨some result, false⟩) := by
  rw [conclude, h]
  rfl

/-! ### Commands that come to their end -/

/-- The pursuit that has come to its end ends its cycle. -/
theorem steps_race (hs : job.cycle.settled = false) :
    Steps 1 (base.work job [.race .own]) (base.work job.settle [.cycle .own]) :=
  .single ((step_work _).trans (congrArg some (settleRace_first hs)))

/-- A pursuit that comes to its end does so in fewer turns than a session takes. -/
theorem steps_pursue {ticket : Ticket} (h : base.Standing (.ready ticket))
    (hi : base.service = .idle) {command : Command} {event : Event}
    (hk : event.kind = .command command) {pursuit : Pursuit}
    (hb : base.bench.begin event command = .ok pursuit) {blocks : List (List Event)}
    {reached : Workbench} {fault : Option Fault}
    (hr : base.bench.Runs pursuit blocks reached fault) :
    ∃ base₁ base' job, Steps (1 + (2 * blocks.length + 1))
          ((base.rest (.ready ticket)).give command event)
          (base'.work (job.withRun (.finished fault)) [.race .own]) ∧
      Begun base command event base₁ job ∧
      Passed base₁ (job.withRun (.finished fault)) (askedFor blocks) reached base' ∧
      1 + (2 * blocks.length + 1) + 5
        ≤ ((base.rest (.ready ticket)).give command event).turnLimit := by
  obtain ⟨base₁, job, hbegin, hbegun⟩ := steps_begin h hk
  obtain ⟨base', hrun, hpassed⟩ := steps_runs hr hbegun.sound (hbegun.service.trans hi) hbegun.core
    hbegun.queued hbegun.stopping (hbegun.resumption_eq hb)
  refine ⟨base₁, base', job, hbegin.trans hrun, hbegun, hpassed, ?_⟩
  -- a session allows for two turns for every step that remains, and for more
  have hlength := hr.length_blocks (h.sound.poised (Base.isOpen_of_idle hi))
  rw [turnLimit_give h hk]
  omega

/-- A command whose pursuit comes to its end is answered; the session rests where the pursuit has
come to. -/
theorem perform_runs {ticket : Ticket} (h : base.Standing (.ready ticket))
    (hi : base.service = .idle) {command : Command} {event : Event}
    (hk : event.kind = .command command) {pursuit : Pursuit}
    (hb : base.bench.begin event command = .ok pursuit) {blocks : List (List Event)}
    {reached : Workbench} (hr : base.bench.Runs pursuit blocks reached none) :
    ∃ base' ticket', (base.rest (.ready ticket)).perform (.command command event)
        = (Base.rest base' (.ready ticket'), ⟨some (.ok (.flag true)), false⟩) ∧
      Left base (.ready ticket') reached
        ([event, .beginStep command] ++ askedFor blocks ++ [.endStep command false]) base' := by
  -- the pursuit runs, its race is decided, and the end of the cycle is published
  obtain ⟨base₁, base₂, job, hpursue, hbegun, hpassed, hlimit⟩ := steps_pursue h hi hk hb hr
  have hcommand : job.cycle.command = command := by rw [hbegun.cycle]
  have hbusy : base₂.service ≠ .busy := by
    rw [hpassed.service]
    exact Service.idle_ne_busy
  obtain ⟨base₃, hend, hleft⟩ := steps_end hpassed.sound.settle hbusy rfl
  have hall := (hpursue.trans (steps_race hbegun.settled)).trans hend
  refine ⟨base₃, base₂.nextTicket, conclude_answered (hall.settle rfl (by omega)), hleft.standing,
    ?_, hleft.core.trans hpassed.core, ?_⟩
  · rw [hleft.service, hpassed.service, hi]
  · rw [hleft.published, hpassed.published, hbegun.published]
    show [Event.endStep job.cycle.command false].reverse ++ _ = _
    rw [hcommand]
    simp only [List.reverse_append, List.append_assoc]

/-! ### Commands that fail -/

/-- A pursuit that has failed takes the dispatcher with it. -/
theorem steps_fault (h : job.Sound base) (hb : base.service ≠ .busy) {fault : Fault}
    (hf : job.cycle.run = .finished (some fault)) (hs : job.cycle.settled = false) :
    ∃ base', Steps 5 (base.work job [.race .own])
        (Base.calm base' (.crashed fault) (.answered (.error fault)) none []) ∧
      base'.Standing (.crashed fault) := by
  have hended : job.settle.cycle.run.ended = some (false, some fault) := by
    show job.cycle.run.ended = _
    rw [hf]
    rfl
  obtain ⟨base', hcrash, hstanding⟩ := steps_crash h.settle hb hended
  exact ⟨base', (steps_race hs).trans hcrash, hstanding⟩

/-- A command that cannot begin is answered by the fault. -/
theorem perform_unbegun {ticket : Ticket} (h : base.Standing (.ready ticket)) {command : Command}
    {event : Event} (hk : event.kind = .command command) {fault : Fault}
    (hb : base.bench.begin event command = .error fault) :
    ∃ base', (base.rest (.ready ticket)).perform (.command command event)
        = (Base.rest base' (.crashed fault), ⟨some (.error fault), false⟩) ∧
      base'.Standing (.crashed fault) := by
  obtain ⟨base₁, job, hbegin, hbegun⟩ := steps_begin h hk
  have hbusy : base₁.service ≠ .busy := by
    rw [hbegun.service]
    exact h.service
  obtain ⟨base₂, hfault, hstanding⟩ :=
    steps_fault (hbegun.sound.withRun rfl) hbusy rfl hbegun.settled
  have hfailed := step_failed hbegun.queued hbegun.stopping (hbegun.resumption_eq hb)
  have hall := (hbegin.trans hfailed).trans hfault
  have hlimit : 1 + 1 + 5 ≤ ((base.rest (.ready ticket)).give command event).turnLimit := by
    rw [turnLimit_give h hk]
    omega
  exact ⟨base₂, conclude_answered (hall.settle rfl hlimit), hstanding⟩

/-- A command whose pursuit cannot tell where it has come to is answered by the fault. -/
theorem perform_fails {ticket : Ticket} (h : base.Standing (.ready ticket))
    (hi : base.service = .idle) {command : Command} {event : Event}
    (hk : event.kind = .command command) {pursuit : Pursuit}
    (hb : base.bench.begin event command = .ok pursuit) {blocks : List (List Event)}
    {reached : Workbench} {fault : Fault}
    (hr : base.bench.Runs pursuit blocks reached (some fault)) :
    ∃ base', (base.rest (.ready ticket)).perform (.command command event)
        = (Base.rest base' (.crashed fault), ⟨some (.error fault), false⟩) ∧
      base'.Standing (.crashed fault) := by
  obtain ⟨base₁, base₂, job, hpursue, hbegun, hpassed, hlimit⟩ := steps_pursue h hi hk hb hr
  have hbusy : base₂.service ≠ .busy := by
    rw [hpassed.service]
    exact Service.idle_ne_busy
  obtain ⟨base₃, hfault, hstanding⟩ := steps_fault hpassed.sound hbusy rfl hbegun.settled
  exact ⟨base₃, conclude_answered ((hpursue.trans hfault).settle rfl hlimit), hstanding⟩

/-- A dispatcher that has crashed answers every command by its fault. -/
theorem perform_crashed {fault : Fault} (h : base.Standing (.crashed fault)) (command : Command)
    (event : Event) :
    (base.rest (.crashed fault)).perform (.command command event)
      = (base.rest (.crashed fault), ⟨some (.error fault), false⟩) := by
  refine conclude_answered ?_
  show ((base.rest (.crashed fault)).give command event).settle = _
  rw [give_crashed h.sound]
  exact (Steps.refl _).settle rfl (Nat.zero_le _)

/-! ### Commands that are left waiting -/

/-- A command waits for ever: nothing can move, and the engine has halted. -/
structure Stranded (session : Session) (fault : Fault) (base : Base) (job : Job) : Prop where
  eq_work : session = base.work job []
  sound : job.Sound base
  service : base.service = .halted fault
  waits : ∃ ticket pursuit, job.cycle.run = .waiting ticket pursuit
  unheard : job.heard = false
  settled : job.cycle.settled = false
  stopping : job.cycle.stopping = false

/-- A stranded command waits until it is interrupted. -/
theorem Stranded.conclude {session : Session} {fault : Fault}
    (h : Stranded session.settle fault base job) :
    ∃ base' ticket', session.conclude
        = (Base.rest base' (.ready ticket'), ⟨some (.ok (.flag false)), true⟩) ∧
      base'.Standing (.ready ticket') ∧ base'.service = .halted fault := by
  obtain ⟨ticket, pursuit, hw⟩ := h.waits
  let heard := (base.publish base.bench [.interrupt]).took job.cycle.interrupt .interrupt
  have hheard : heard.Sound := (h.sound.sound.note [.interrupt]).took h.sound.interrupt_lt _
  have hb : heard.service ≠ .busy := by
    show base.service ≠ .busy
    rw [h.service]
    exact Service.halted_ne_busy fault
  -- the interrupt decides the race, and the pursuit is dropped in a turn of its own
  have hput : (base.work job []).put .interrupt = (heard.work job.hear [.race .own], none) :=
    put_interrupt_first h.sound h.unheard h.stopping []
  have hhear : job.hear.settle.Sound heard := (h.sound.move hheard (Nat.le_refl _)).hear.settle
  let doomed := job.hear.settle.stop.withRun (.queued (some pursuit))
  have hcycle : Steps 1 (heard.work job.hear.settle [.cycle .own])
      (heard.work doomed [.run .own]) :=
    .single ((step_work _).trans (congrArg some (resumeCycle_waiting hhear hw)))
  let dropped := doomed.withRun .cancelled
  have htakers : doomed.cycle.run.takers = [] := rfl
  have hrun : Steps 1 (heard.work doomed [.run .own]) (heard.work dropped [.cycle .own]) :=
    .single ((step_work _).trans (congrArg some (resumeRun_stopping htakers rfl [])))
  have hdropped : dropped.Sound heard := hhear.stop.withRun rfl
  obtain ⟨base', hend, hleft⟩ := steps_end hdropped hb rfl
  have hrace :
      Steps 1 (heard.work job.hear [.race .own]) (heard.work job.hear.settle [.cycle .own]) :=
    steps_race h.settled
  have hall := ((hrace.trans hcycle).trans hrun).trans hend
  have hlimit : 1 + 1 + 1 + 3 ≤ (heard.work job.hear [.race .own]).turnLimit := by
    show 6 ≤ 16 * 4 * (heard.bench.recording.steps.length + 4)
    omega
  refine ⟨base', heard.nextTicket, ?_, hleft.standing, hleft.service.trans h.service⟩
  have hnone : (base.work job []).answer? = none := rfl
  rw [Session.conclude, h.eq_work]
  dsimp only
  rw [hnone, hput]
  dsimp only
  rw [hall.settle rfl hlimit]
  rfl

/-- A command that comes to a step that cannot be processed is stranded. -/
theorem stranded_of_stalls {ticket : Ticket} (h : base.Standing (.ready ticket))
    (hi : base.service = .idle) {command : Command} {event : Event}
    (hk : event.kind = .command command) {pursuit : Pursuit}
    (hb : base.bench.begin event command = .ok pursuit) {fault : Fault}
    (hst : base.bench.Stalls pursuit fault) :
    ∃ base' job,
      Stranded ((base.rest (.ready ticket)).give command event).settle fault base' job := by
  obtain ⟨base₁, job, hbegin, hbegun⟩ := steps_begin h hk
  have hpoised : base.bench.Poised := h.sound.poised (Base.isOpen_of_idle hi)
  obtain ⟨base₂, ticket₂, more, count, hcount, hstall, hsound, hhalted⟩ := steps_stalls hst hpoised
    hbegun.sound (hbegun.service.trans hi) hbegun.core hbegun.queued hbegun.stopping
    (hbegun.resumption_eq hb)
  -- the turns that lead there are few enough to be taken before the session gives up
  have hlimit : 1 + count ≤ ((base.rest (.ready ticket)).give command event).turnLimit := by
    rw [turnLimit_give h hk]
    rw [Recording.remaining] at hcount
    omega
  exact ⟨base₂, job.withRun (.waiting ticket₂ more), (hbegin.trans hstall).settle rfl hlimit,
    hsound, hhalted, ⟨ticket₂, more, rfl⟩, hbegun.unheard, hbegun.settled, hbegun.stopping⟩

/-- So is a command that can begin when the engine has halted before. -/
theorem stranded_of_over {ticket : Ticket} (h : base.Standing (.ready ticket)) {fault : Fault}
    (ho : base.service = .halted fault) {command : Command} {event : Event}
    (hk : event.kind = .command command) {pursuit : Pursuit}
    (hb : base.bench.begin event command = .ok pursuit) :
    ∃ base' job,
      Stranded ((base.rest (.ready ticket)).give command event).settle fault base' job := by
  obtain ⟨base₁, job, hbegin, hbegun⟩ := steps_begin h hk
  have hhalted : base₁.service = .halted fault := hbegun.service.trans ho
  have hclosed := Base.isOpen_of_halted hhalted
  have htakers := Job.takers_of_queued hbegun.queued
  let asked := (base₁.publish base₁.bench [.next]).ticketed
  let waiting := job.withRun (.waiting base₁.nextTicket pursuit)
  have hasked : asked.Sound := (hbegun.sound.sound.note [.next]).ticketed
  have hwaiting : waiting.Sound asked := hbegun.sound.wait hasked rfl pursuit
  -- the request is published, but the engine takes none any more
  have hrun : Steps 1 (base₁.work job [.run .own]) (asked.work waiting []) := by
    refine .single ((step_work _).trans (congrArg some ?_))
    have hresumption := hbegun.resumption_eq hb
    exact (resumeRun_on hbegun.queued hbegun.stopping hresumption).trans
      (requestStep_over hbegun.sound hclosed htakers pursuit)
  have hlimit : 1 + 1 ≤ ((base.rest (.ready ticket)).give command event).turnLimit := by
    rw [turnLimit_give h hk]
    omega
  exact ⟨asked, waiting, (hbegin.trans hrun).settle rfl hlimit, hwaiting, hhalted,
    ⟨base₁.nextTicket, pursuit, rfl⟩, hbegun.unheard, hbegun.settled, hbegun.stopping⟩

end Session

end TraceDebugger
