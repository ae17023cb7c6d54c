/-
The stages of a session that takes commands and interrupts.

While a command is under way, the turns to come are fixed by how far the command is, up to the order
of two of them: one turn brings the pursuit forward, and one turn tells the cycle how the race
stands (`Paced`).  Every turn leads to a stage again, and so does an interrupt.  A rank that falls
with each turn bounds the turns that can be taken.

* `descends_takeTurn` — one turn of a command under way, by cases on how far it is;
* `descends_step`, `stage_interrupt` — stages are left for stages only, and turns lower the rank;
* `exists_steps_nil` — from every stage there are only so many turns until nothing can move;
* `halted_of_waiting` — if a command waits then, the engine has halted.
-/
import TraceDebugger.Proofs.Session.Loading

namespace TraceDebugger

/-! ### Ranks -/

/-- How far a pursuit is from its end, when so many steps remain. -/
def Cycle.distance (ahead : Nat) (cycle : Cycle) : Nat :=
  if cycle.stopping then 0
  else match cycle.run with
    | .queued none => 2 * ahead + 2
    | .queued (some _) => if ahead = 0 then 0 else 2 * ahead + 2
    | .waiting .. => 2 * ahead + 1
    | _ => 0

/-- What a turn counts, when so many steps remain. -/
@[simp] def Turn.weight (ahead : Nat) : Turn → Nat
  | .command _ => 6 * ahead + 14
  | .run _ | .engine => 7
  | .race _ => 6
  | .cycle _ => 5
  | .reply => 2
  | .caller => 1
  | .trace _ => 0

@[simp] def Turn.weights (ahead : Nat) : List Turn → Nat
  | [] => 0
  | turn :: turns => turn.weight ahead + weights ahead turns

@[simp] theorem Turn.weights_append (ahead : Nat) (turns more : List Turn) :
    weights ahead (turns ++ more) = weights ahead turns + weights ahead more := by
  induction turns with
  | nil => simp
  | cons turn turns ih =>
    simp [ih]
    omega

/-- A bound on the turns that a session can take: a turn weighs more than those that it leads to,
apart from what the pursuit gives for them. -/
def Session.rank (session : Session) : Nat :=
  3 * (session.ownCycle.map (Cycle.distance session.bench.recording.remaining)).getD 0
    + Turn.weights session.bench.recording.remaining session.turns

/-! ### A command under way -/

/-- The turn in which the cycle learns how the race stands. -/
def Job.raceTurns (job : Job) : List Turn :=
  if job.cycle.settled then [.cycle .own] else if job.heard then [.race .own] else []

/-- The turn of whoever brings a pursuit forward; nobody does if the engine has halted. -/
inductive Mark : Service → RunStatus → List Turn → Prop
  | queued {service queued} (hb : service ≠ .busy) : Mark service (.queued queued) [.run .own]
  | served {ticket pursuit} : Mark .busy (.waiting ticket pursuit) [.engine]
  | lost {fault ticket pursuit} : Mark (.halted fault) (.waiting ticket pursuit) []

/-- Nobody brings a pursuit forward only if the engine has halted. -/
theorem Mark.over_of_nil {service : Service} {run : RunStatus} {mark : List Turn}
    (h : Mark service run mark) (hn : mark = []) : ∃ fault, service = .halted fault := by
  cases h with
  | queued => cases hn
  | served => cases hn
  | @lost fault => exact ⟨fault, rfl⟩

/-- The turns to come while a command is under way. -/
inductive Paced (service : Service) (job : Job) : List Turn → Prop
  /-- The pursuit is under way and has its turn before the race. -/
  | ahead {mark} (hm : Mark service job.cycle.run mark) (hs : job.cycle.stopping = false)
      (hr : job.cycle.settled = true → job.heard = true) : Paced service job (mark ++ job.raceTurns)
  /-- It has its turn after the race. -/
  | behind {mark} (hm : Mark service job.cycle.run mark) (hs : job.cycle.stopping = false)
      (hr : job.cycle.settled = true → job.heard = true) : Paced service job (job.raceTurns ++ mark)
  /-- The pursuit is over, and the race has yet to be decided. -/
  | finished {fault} (hf : job.cycle.run = .finished fault) (hb : service ≠ .busy)
      (hs : job.cycle.stopping = false) (hd : job.cycle.settled = false) :
      Paced service job (.race .own :: job.raceTurns)
  /-- The pursuit is over, and the race is decided, perhaps by an interrupt. -/
  | decided {fault turns} (hf : job.cycle.run = .finished fault) (hb : service ≠ .busy)
      (hs : job.cycle.stopping = false) (hd : job.cycle.settled = true)
      (ht : turns = [.cycle .own] ∨ job.heard = true ∧
        (turns = [.cycle .own, .race .own] ∨ turns = [.race .own, .cycle .own])) :
      Paced service job turns
  /-- The pursuit is to be dropped. -/
  | doomed {queued} (hq : job.cycle.run = .queued queued) (hb : service ≠ .busy)
      (hs : job.cycle.stopping = true) (hr : job.heard = true) : Paced service job [.run .own]
  /-- So it is, after the engine has served its last request. -/
  | doomedServed {queued} (hq : job.cycle.run = .queued queued) (hb : service = .busy)
      (hs : job.cycle.stopping = true) (hr : job.heard = true) :
      Paced service job [.engine, .run .own]
  /-- The pursuit has been dropped. -/
  | dropped (hc : job.cycle.run = .cancelled) (hb : service ≠ .busy)
      (hs : job.cycle.stopping = true) (hr : job.heard = true) : Paced service job [.cycle .own]

/-- A stage of a session that has loaded its trace. -/
inductive Stage : Session → Prop
  | rest {base host} (h : Base.Standing base host) : Stage (base.rest host)
  /-- A command has been given. -/
  | handling {base reply command event} (h : Base.Sound base) (hr : reply < base.nextTicket)
      (hb : base.service ≠ .busy) (hk : Event.kind event = .command command) :
      Stage (base.handling reply command [.command event])
  /-- A command is under way. -/
  | work {base job turns} (h : Job.Sound job base) (hp : Paced base.service job turns) :
      Stage (base.work job turns)
  /-- A command is over, and the caller has yet to learn of it. -/
  | ending {base host reply settled running turns command interrupted} (h : Base.Standing base host)
      (ho : (base.store []).outcome? reply = some (.endStep command interrupted))
      (ht : ∀ turn ∈ turns, turn = .race .own ∨ turn = .reply) :
      Stage (base.calm host (.commanding reply settled) running
        (turns ++ [if settled then .caller else .reply]))
  | answered {base host result} (h : Base.Standing base host) :
      Stage (base.calm host (.answered result) none [])

namespace Session

variable {base : Base} {job : Job} {turns : List Turn}

theorem rank_work : (base.work job turns).rank
    = 3 * job.cycle.distance base.bench.recording.remaining
      + Turn.weights base.bench.recording.remaining turns := rfl

theorem rank_calm (host : Host) (caller : CallerStatus) (running : Option Command) :
    (base.calm host caller running turns).rank
      = Turn.weights base.bench.recording.remaining turns :=
  Nat.zero_add _

/-- A session comes to a stage of a lower rank. -/
def Descends (rank : Nat) (session : Session) : Prop := Stage session ∧ session.rank < rank

/-- A command under way descends by a turn that leaves as many steps. -/
theorem descends_work {base' : Base} {job' : Job} {turns' : List Turn} (h : job'.Sound base')
    (hp : Paced base'.service job' turns')
    (hsame : base'.bench.recording.remaining = base.bench.recording.remaining)
    (hlt : 3 * job'.cycle.distance base.bench.recording.remaining
        + Turn.weights base.bench.recording.remaining turns'
      < 3 * job.cycle.distance base.bench.recording.remaining
        + Turn.weights base.bench.recording.remaining turns) :
    Descends (base.work job turns).rank (base'.work job' turns') := by
  refine ⟨.work h hp, ?_⟩
  rw [rank_work, rank_work, hsame]
  exact hlt

/-! ### The turns of the race -/

theorem raceTurns_unheard (hd : job.cycle.settled = false) (hr : job.heard = false) :
    job.raceTurns = [] := by
  rw [Job.raceTurns, hd, hr]
  rfl

theorem raceTurns_heard (hd : job.cycle.settled = false) (hr : job.heard = true) :
    job.raceTurns = [.race .own] := by
  rw [Job.raceTurns, hd, hr]
  rfl

theorem raceTurns_settled (hd : job.cycle.settled = true) : job.raceTurns = [.cycle .own] := by
  rw [Job.raceTurns, hd]
  rfl

/-- Once the pursuit is over, its turn joins those of the race. -/
theorem paced_finished {service : Service} {fault : Option Fault} (hb : service ≠ .busy)
    (hs : job.cycle.stopping = false) (hr : job.cycle.settled = true → job.heard = true) :
    Paced service (job.withRun (.finished fault)) (job.raceTurns ++ [.race .own]) := by
  let ended := job.withRun (.finished fault)
  have hf : ended.cycle.run = .finished fault := rfl
  cases hd : job.cycle.settled with
  | true =>
    rw [raceTurns_settled hd]
    exact .decided hf hb hs hd (.inr ⟨hr hd, .inl rfl⟩)
  | false =>
    have hsame : ended.raceTurns = job.raceTurns := rfl
    have hpaced : Paced service ended (.race .own :: ended.raceTurns) := .finished hf hb hs hd
    cases hheard : job.heard with
    | true =>
      rw [hsame, raceTurns_heard hd hheard] at hpaced
      rw [raceTurns_heard hd hheard]
      exact hpaced
    | false =>
      rw [hsame, raceTurns_unheard hd hheard] at hpaced
      rw [raceTurns_unheard hd hheard]
      exact hpaced

/-! ### The pursuit -/

/-- A pursuit that has a turn comes nearer to its end. -/
theorem distance_resumption {ahead : Nat} {cycle : Cycle} {queued : Option Pursuit} {more : Pursuit}
    {bench : Workbench} (hl : bench.recording.loaded = true)
    (ha : bench.recording.remaining = ahead)
    (hs : cycle.stopping = false) (hq : cycle.run = .queued queued)
    (hm : resumption bench cycle queued = .ok (some more)) :
    cycle.distance ahead = 2 * ahead + 2 := by
  rw [Cycle.distance, hs, if_neg Bool.false_ne_true, hq]
  cases queued with
  | none => rfl
  | some pursuit =>
    have hpos := Workbench.remaining_pos_of_proceed hl hm
    exact if_neg (by omega)

/-- A pursuit has its turn: it is over, or waits for a step. -/
theorem descends_run (h : job.Sound base) {queued : Option Pursuit}
    (hq : job.cycle.run = .queued queued) (hb : base.service ≠ .busy)
    (hs : job.cycle.stopping = false) (hr : job.cycle.settled = true → job.heard = true) :
    Descends (base.work job (.run .own :: job.raceTurns)).rank
      ((base.work job job.raceTurns).resumeRun .own) := by
  have htakers := Job.takers_of_queued hq
  have hover (fault : Option Fault) :
      (job.withRun (.finished fault)).cycle.distance base.bench.recording.remaining = 0 :=
    ite_self 0
  -- the pursuit fails, has come where it wanted, or asks for one more step
  cases hm : resumption base.bench job.cycle queued with
  | error fault =>
    rw [resumeRun_failed hq hs hm]
    refine descends_work (h.withRun rfl) (paced_finished hb hs hr) rfl ?_
    rw [hover]
    simp
    omega
  | ok next =>
    cases next with
    | none =>
      obtain ⟨lines, hlast⟩ := resumeRun_over hq hs hm job.raceTurns
      rw [hlast]
      refine descends_work ((h.withRun rfl).move (h.sound.logged lines) (Nat.le_refl _))
        (paced_finished hb hs hr) rfl ?_
      rw [hover]
      simp
      omega
    | some more =>
      have hdistance := distance_resumption h.sound.loaded rfl hs hq hm
      have hwaiting (ticket : Ticket) : (job.withRun (.waiting ticket more)).cycle.distance
          base.bench.recording.remaining = 2 * base.bench.recording.remaining + 1 := by
        show (if job.cycle.stopping = true then 0 else _) = _
        rw [hs]
        exact if_neg Bool.false_ne_true
      rw [resumeRun_on hq hs hm]
      cases hservice : base.service with
      | busy => exact absurd hservice hb
      | idle =>
        rw [requestStep_idle h hservice htakers more]
        have hwait := h.wait (h.sound.asked hservice) rfl more
        refine descends_work hwait (.behind .served hs hr) rfl ?_
        rw [hwaiting, hdistance]
        simp
        omega
      | halted fault =>
        -- the request is lost, and nobody will bring the pursuit forward
        have hclosed := Base.isOpen_of_halted hservice
        have hmark : Mark ((base.publish base.bench [.next]).ticketed).service
            (job.withRun (.waiting base.nextTicket more)).cycle.run [] := by
          show Mark base.service _ _
          rw [hservice]
          exact .lost
        rw [requestStep_over h hclosed htakers more]
        refine descends_work (h.wait (h.sound.note [.next]).ticketed rfl more)
          (.ahead hmark hs hr) rfl ?_
        rw [hwaiting, hdistance]
        simp
        omega

/-! ### The engine -/

/-- A step that is processed brings the end of the pursuit nearer. -/
theorem distance_served {ahead : Nat} {cycle : Cycle} {ticket : Ticket} {pursuit : Pursuit}
    (hs : cycle.stopping = false) (hw : cycle.run = .waiting ticket pursuit) :
    ({ cycle with run := .queued (some pursuit) } : Cycle).distance (ahead - 1)
      < cycle.distance ahead := by
  rw [Cycle.distance, Cycle.distance, hs, hw]
  show (if false = true then 0 else if ahead - 1 = 0 then 0 else 2 * (ahead - 1) + 2)
    < if false = true then 0 else 2 * ahead + 1
  rw [if_neg Bool.false_ne_true, if_neg Bool.false_ne_true]
  split <;> omega

theorem remaining_past {bench : Workbench} {events : List Event}
    (hp : bench.passage = .ok events) :
    (bench.past events).recording.remaining = bench.recording.remaining - 1 := by
  rw [Recording.remaining, Workbench.cursor_past hp, Workbench.steps_past hp, Recording.remaining]
  omega

theorem remaining_stalled {lines : List LogLine} {events : List Event} {fault : Fault}
    (hd : ∀ event ∈ events, event.Derived) :
    (base.stalled lines events fault).bench.recording.remaining
      = base.bench.recording.remaining := by
  show (base.bench.slices.after events).recording.remaining = _
  rw [Slices.recording_after_derived hd]
  rfl

/-- The weights of turns other than commands do not depend on the steps that remain. -/
theorem weights_raceTurns (job : Job) (ahead ahead' : Nat) :
    Turn.weights ahead job.raceTurns = Turn.weights ahead' job.raceTurns := by
  rw [Job.raceTurns]
  split
  · rfl
  · split <;> rfl

/-- The engine has its turn while the pursuit waits for it. -/
theorem descends_serve (h : job.Sound base) (hb : base.service = .busy) {ticket : Ticket}
    {pursuit : Pursuit} (hw : job.cycle.run = .waiting ticket pursuit)
    (hs : job.cycle.stopping = false) (hr : job.cycle.settled = true → job.heard = true) :
    Descends (base.work job (.engine :: job.raceTurns)).rank
      (base.work job job.raceTurns).serve := by
  -- a step that can be processed is, and otherwise the engine halts
  cases hp : base.bench.passage with
  | ok events =>
    obtain ⟨lines, hserve⟩ : ∃ lines, (base.work job job.raceTurns).serve = _ :=
      serve_awaited h hb hw hp
    obtain ⟨-, hticket⟩ := h.waits ticket pursuit hw
    have hsound : ((base.stepped lines events).took ticket base.bench.closing).Sound :=
      (h.sound.stepped (Base.isOpen_of_busy hb) hp lines).took hticket _
    rw [hserve]
    refine ⟨.work ((h.withRun rfl).move hsound (Nat.le_refl _))
      (.behind (.queued Service.idle_ne_busy) hs hr), ?_⟩
    have hremaining : ((base.stepped lines events).took ticket
        base.bench.closing).bench.recording.remaining = base.bench.recording.remaining - 1 :=
      remaining_past hp
    have hless : (job.withRun (.queued (some pursuit))).cycle.distance
        (base.bench.recording.remaining - 1) < job.cycle.distance base.bench.recording.remaining :=
      distance_served hs hw
    have hraceTurns := weights_raceTurns job (base.bench.recording.remaining - 1)
      base.bench.recording.remaining
    rw [rank_work, rank_work, hremaining]
    simp [hraceTurns]
    omega
  | error fault =>
    obtain ⟨lines, events, hderived, hserve⟩ : ∃ lines events, (∀ event ∈ events,
        Event.Derived event) ∧ (base.work job job.raceTurns).serve = _ := serve_stall h.sound hb hp
    have hmark : Mark (base.stalled lines events fault).service job.cycle.run [] := by
      rw [hw]
      exact .lost
    rw [hserve]
    refine descends_work (h.move (h.sound.stalled hderived lines fault) (Nat.le_refl _))
      (.ahead hmark hs hr) (remaining_stalled hderived) ?_
    simp

/-! ### The race and the cycle -/

theorem raceTurns_cases (hr : job.cycle.settled = true → job.heard = true) :
    job.raceTurns = [] ∨
      (job.raceTurns = [.race .own] ∧ job.cycle.settled = false ∧ job.heard = true) ∨
      (job.raceTurns = [.cycle .own] ∧ job.cycle.settled = true ∧ job.heard = true) := by
  cases hd : job.cycle.settled with
  | true => exact .inr (.inr ⟨raceTurns_settled hd, rfl, hr hd⟩)
  | false =>
    cases hheard : job.heard with
    | true => exact .inr (.inl ⟨raceTurns_heard hd hheard, rfl, rfl⟩)
    | false => exact .inl (raceTurns_unheard hd hheard)

/-- An interrupt decides the race. -/
theorem descends_race (h : job.Sound base) {mark : List Turn}
    (hm : Mark base.service job.cycle.run mark) (hs : job.cycle.stopping = false)
    (hd : job.cycle.settled = false) (hr : job.heard = true) :
    Descends (base.work job (.race .own :: mark)).rank ((base.work job mark).settleRace .own) := by
  have hpaced : Paced base.service job.settle (mark ++ job.settle.raceTurns) :=
    .ahead hm hs fun _ => hr
  rw [raceTurns_settled rfl] at hpaced
  have hdistance : job.settle.cycle.distance base.bench.recording.remaining
      = job.cycle.distance base.bench.recording.remaining := rfl
  rw [settleRace_first hd]
  refine descends_work h.settle hpaced rfl ?_
  rw [hdistance]
  simp
  omega

/-- The cycle finds that the interrupt has won, and stops the pursuit. -/
theorem descends_cycle (h : job.Sound base) {mark : List Turn}
    (hm : Mark base.service job.cycle.run mark) (hs : job.cycle.stopping = false)
    (hr : job.heard = true) :
    Descends (base.work job (.cycle .own :: mark)).rank
      ((base.work job mark).resumeCycle .own) := by
  have hdoomed {run : RunStatus} : (job.stop.withRun run).cycle.distance
      base.bench.recording.remaining = 0 := rfl
  have hwaiting {ticket : Ticket} {pursuit : Pursuit}
      (hw : job.cycle.run = .waiting ticket pursuit) :
      job.cycle.distance base.bench.recording.remaining
        = 2 * base.bench.recording.remaining + 1 := by
    rw [Cycle.distance, hs, hw]
    exact if_neg Bool.false_ne_true
  generalize hrun : job.cycle.run = run at hm
  generalize hservice : base.service = service at hm
  -- a pursuit that is stopped is as near to its end as can be, but has a turn or two yet
  cases hm with
  | queued hb =>
    have hstop : job.stop.cycle.distance base.bench.recording.remaining = 0 := rfl
    rw [resumeCycle_queued hrun]
    refine descends_work h.stop (.doomed hrun (hservice ▸ hb) rfl hr) rfl ?_
    rw [hstop]
    simp
  | @served ticket pursuit =>
    rw [resumeCycle_waiting h hrun]
    refine descends_work (h.stop.withRun rfl) (.doomedServed rfl hservice rfl hr) rfl ?_
    rw [hdoomed, hwaiting hrun]
    simp
    omega
  | @lost fault ticket pursuit =>
    have hb : base.service ≠ .busy := hservice ▸ Service.halted_ne_busy fault
    rw [resumeCycle_waiting h hrun]
    refine descends_work (h.stop.withRun rfl) (.doomed rfl hb rfl hr) rfl ?_
    rw [hdoomed, hwaiting hrun]
    simp
    omega

theorem harmless_append_reply (ht : ∀ turn ∈ turns, turn = .race .own ∨ turn = .reply) :
    ∀ turn ∈ turns ++ [Turn.reply], turn = .race .own ∨ turn = .reply := by
  intro turn hturn
  rcases List.mem_append.mp hturn with hturn | hturn
  · exact ht turn hturn
  · exact .inr (List.mem_singleton.mp hturn)

/-- The end of a command is published, and the caller has a turn in which it learns of that. -/
theorem stage_told {host : Host} {reply : Ticket} {running : Option Command} {command : Command}
    {interrupted : Bool} (h : base.Standing host)
    (ho : (base.store []).outcome? reply = some (.endStep command interrupted))
    (ht : ∀ turn ∈ turns, turn = .race .own ∨ turn = .reply) :
    Stage (base.calm host (.commanding reply false) running (turns ++ [.reply])) :=
  .ending h ho ht

/-- The cycle of a pursuit that is over ends, and the caller will learn of it. -/
theorem descends_end (h : job.Sound base) (hb : base.service ≠ .busy) {interrupted : Bool}
    {fault : Option Fault} (he : job.cycle.run.ended = some (interrupted, fault))
    (ht : ∀ turn ∈ turns, turn = .race .own ∨ turn = .reply) :
    Descends (base.work job (.cycle .own :: turns)).rank
      ((base.work job turns).resumeCycle .own) := by
  cases fault with
  | none =>
    obtain ⟨lines, hend⟩ := resumeCycle_ok h he turns
    obtain ⟨hstanding, -⟩ := left_closed h hb lines interrupted
    have houtcome := Base.outcome?_closed (base.on (base.bench.during none lines)) job.reply
      job.cycle.command interrupted
    rw [hend]
    refine ⟨stage_told hstanding houtcome ht, ?_⟩
    rw [rank_calm, rank_work]
    show Turn.weights base.bench.recording.remaining (turns ++ [.reply]) < _
    simp
    omega
  | some fault =>
    obtain ⟨lines, hend⟩ := resumeCycle_fault h he turns
    have hsound := (h.sound.during none lines).closed h.reply_lt_next job.cycle.command interrupted
    have houtcome := Base.outcome?_closed (base.on (base.bench.during none lines)) job.reply
      job.cycle.command interrupted
    -- the end is told twice, so the caller has two turns
    rw [hend]
    refine ⟨stage_told ⟨hsound, rfl, hb, fun _ hticket => by cases hticket⟩ houtcome
      (harmless_append_reply ht), ?_⟩
    rw [rank_calm, rank_work]
    show Turn.weights base.bench.recording.remaining (turns ++ [.reply] ++ [.reply]) < _
    simp
    omega

/-! ### Turns -/

/-- The engine serves the last request of a pursuit that is to be dropped. -/
theorem descends_last (h : job.Sound base) (hb : base.service = .busy) {queued : Option Pursuit}
    (hq : job.cycle.run = .queued queued) (hs : job.cycle.stopping = true) (hr : job.heard = true) :
    Descends (base.work job [.engine, .run .own]).rank (base.work job [.run .own]).serve := by
  have htakers := Job.takers_of_queued hq
  -- a pursuit that is to be dropped is at no distance from its end, so the turn alone counts
  have hdoomed (ahead : Nat) : job.cycle.distance ahead = 0 := by
    rw [Cycle.distance, hs]
    rfl
  have hpaced {service : Service} (hb : service ≠ .busy) : Paced service job [.run .own] :=
    .doomed hq hb hs hr
  cases hp : base.bench.passage with
  | ok events =>
    obtain ⟨lines, hserve⟩ : ∃ lines, (base.work job [.run .own]).serve = _ :=
      serve_unawaited h.sound hb htakers hp
    rw [hserve]
    have hstepped := h.sound.stepped (Base.isOpen_of_busy hb) hp lines
    refine ⟨.work (h.move hstepped (Nat.le_refl _)) (hpaced Service.idle_ne_busy), ?_⟩
    rw [rank_work, rank_work, hdoomed, hdoomed]
    simp
  | error fault =>
    obtain ⟨lines, events, hderived, hserve⟩ : ∃ lines events, (∀ event ∈ events,
        Event.Derived event) ∧ (base.work job [.run .own]).serve = _ := serve_stall h.sound hb hp
    rw [hserve]
    have hstalled := h.sound.stalled hderived lines fault
    refine ⟨.work (h.move hstalled (Nat.le_refl _)) (hpaced (Service.halted_ne_busy fault)), ?_⟩
    rw [rank_work, rank_work, hdoomed, hdoomed]
    simp

/-- The race comes first, if it has a turn. -/
theorem descends_behind (h : job.Sound base) {mark : List Turn} {turn : Turn}
    (hm : Mark base.service job.cycle.run mark) (hs : job.cycle.stopping = false)
    (hr : job.cycle.settled = true → job.heard = true)
    (hall : turn :: turns = job.raceTurns ++ mark) :
    Descends (base.work job (turn :: turns)).rank ((base.work job turns).takeTurn turn) := by
  -- the turns of the race are gone, or its decision is to come, or its outcome for the cycle is
  obtain hraceTurns | ⟨hraceTurns, hd, hheard⟩ | ⟨hraceTurns, hd, hheard⟩ := raceTurns_cases hr
  · rw [hraceTurns] at hall
    generalize hrun : job.cycle.run = run at hm
    generalize hservice : base.service = service at hm
    cases hm with
    | queued hb =>
      obtain ⟨rfl, rfl⟩ := List.cons.inj hall
      have hstep := descends_run h hrun (hservice ▸ hb) hs hr
      rwa [hraceTurns] at hstep
    | served =>
      obtain ⟨rfl, rfl⟩ := List.cons.inj hall
      have hstep := descends_serve h hservice hrun hs hr
      rwa [hraceTurns] at hstep
    | lost => cases hall
  · rw [hraceTurns] at hall
    obtain ⟨rfl, rfl⟩ := List.cons.inj hall
    exact descends_race h hm hs hd hheard
  · rw [hraceTurns] at hall
    obtain ⟨rfl, rfl⟩ := List.cons.inj hall
    exact descends_cycle h hm hs hheard

/-- The pursuit comes first, unless it is lost. -/
theorem descends_ahead (h : job.Sound base) {mark : List Turn} {turn : Turn}
    (hm : Mark base.service job.cycle.run mark) (hs : job.cycle.stopping = false)
    (hr : job.cycle.settled = true → job.heard = true)
    (hall : turn :: turns = mark ++ job.raceTurns) :
    Descends (base.work job (turn :: turns)).rank ((base.work job turns).takeTurn turn) := by
  have hm' := hm
  generalize hrun : job.cycle.run = run at hm'
  generalize hservice : base.service = service at hm'
  cases hm' with
  | queued hb =>
    obtain ⟨rfl, rfl⟩ := List.cons.inj hall
    exact descends_run h hrun (hservice ▸ hb) hs hr
  | served =>
    obtain ⟨rfl, rfl⟩ := List.cons.inj hall
    exact descends_serve h hservice hrun hs hr
  | lost => exact descends_behind h hm hs hr (hall.trans (List.append_nil _).symm)

/-- The race is decided after the pursuit is over. -/
theorem descends_finished (h : job.Sound base) {fault : Option Fault}
    (hf : job.cycle.run = .finished fault) (hb : base.service ≠ .busy)
    (hs : job.cycle.stopping = false) (hd : job.cycle.settled = false) :
    Descends (base.work job (.race .own :: job.raceTurns)).rank
      ((base.work job job.raceTurns).settleRace .own) := by
  -- the race is decided; whether the interrupt was heard tells which turns are to come
  have hpaced : Paced base.service job.settle (job.raceTurns ++ [.cycle .own]) := by
    refine .decided hf hb hs rfl ?_
    cases hheard : job.heard with
    | true => exact .inr ⟨hheard, .inr (congrArg (· ++ _) (raceTurns_heard hd hheard))⟩
    | false => exact .inl (congrArg (· ++ _) (raceTurns_unheard hd hheard))
  have hdistance : job.settle.cycle.distance base.bench.recording.remaining
      = job.cycle.distance base.bench.recording.remaining := rfl
  rw [settleRace_first hd]
  refine descends_work h.settle hpaced rfl ?_
  rw [hdistance]
  simp
  omega

/-- A command under way descends with each turn. -/
theorem descends_takeTurn {turn : Turn} (h : job.Sound base)
    (hp : Paced base.service job (turn :: turns)) :
    Descends (base.work job (turn :: turns)).rank ((base.work job turns).takeTurn turn) := by
  -- by how far the command is, which says whose turn comes first
  generalize hall : turn :: turns = all at hp
  have hrace : ∀ turn ∈ [Turn.race .own], turn = .race .own ∨ turn = .reply := fun turn hturn =>
    .inl (List.mem_singleton.mp hturn)
  have hnone : ∀ turn ∈ ([] : List Turn), turn = .race .own ∨ turn = .reply := fun turn hturn =>
    absurd hturn List.not_mem_nil
  cases hp with
  | ahead hm hs hr => exact hall ▸ descends_ahead h hm hs hr hall
  | behind hm hs hr => exact hall ▸ descends_behind h hm hs hr hall
  | finished hf hb hs hd =>
    obtain ⟨rfl, rfl⟩ := List.cons.inj hall
    exact descends_finished h hf hb hs hd
  | @decided fault _ hf hb hs hd ht =>
    have hended : job.cycle.run.ended = some (false, fault) := by
      rw [hf]
      rfl
    rcases ht with rfl | ⟨hr, rfl | rfl⟩
    · obtain ⟨rfl, rfl⟩ := List.cons.inj hall
      exact descends_end h hb hended hnone
    · obtain ⟨rfl, rfl⟩ := List.cons.inj hall
      exact descends_end h hb hended hrace
    · obtain ⟨rfl, rfl⟩ := List.cons.inj hall
      -- the interrupt came after the race was decided
      show Descends _ ((base.work job [.cycle .own]).settleRace .own)
      rw [settleRace_again hd]
      refine descends_work h (.decided hf hb hs hd (.inl rfl)) rfl ?_
      simp
  | doomed hq hb hs hr =>
    obtain ⟨rfl, rfl⟩ := List.cons.inj hall
    have htakers := Job.takers_of_queued hq
    show Descends _ ((base.work job []).resumeRun .own)
    rw [resumeRun_stopping htakers hs]
    refine descends_work (h.withRun rfl) (.dropped rfl hb hs hr) rfl ?_
    have hdoomed : (job.withRun .cancelled).cycle.distance base.bench.recording.remaining = 0 :=
      ite_self 0
    rw [hdoomed]
    simp
  | doomedServed hq hb hs hr =>
    obtain ⟨rfl, rfl⟩ := List.cons.inj hall
    exact descends_last h hb hq hs hr
  | dropped hc hb hs hr =>
    obtain ⟨rfl, rfl⟩ := List.cons.inj hall
    have hended : job.cycle.run.ended = some (true, none) := by
      rw [hc]
      rfl
    exact descends_end h hb hended hnone

/-- The caller has a turn in which it gets its answer. -/
theorem stage_asked {host : Host} {reply : Ticket} {running : Option Command} {command : Command}
    {interrupted : Bool} (h : base.Standing host)
    (ho : (base.store []).outcome? reply = some (.endStep command interrupted))
    (ht : ∀ turn ∈ turns, turn = .race .own ∨ turn = .reply) :
    Stage (base.calm host (.commanding reply true) running (turns ++ [.caller])) :=
  .ending h ho ht

/-- The caller comes nearer to its answer. -/
theorem descends_ending {host : Host} {reply : Ticket} {settled : Bool} {running : Option Command}
    {command : Command} {interrupted : Bool} (h : base.Standing host)
    (ho : (base.store []).outcome? reply = some (.endStep command interrupted))
    (ht : ∀ turn ∈ turns, turn = .race .own ∨ turn = .reply) {turn : Turn} {rest : List Turn}
    (hall : turn :: rest = turns ++ [if settled then .caller else .reply]) :
    Descends (base.calm host (.commanding reply settled) running (turn :: rest)).rank
      ((base.calm host (.commanding reply settled) running rest).takeTurn turn) := by
  have hnone : ∀ turn ∈ ([] : List Turn), turn = .race .own ∨ turn = .reply := fun turn hturn =>
    absurd hturn List.not_mem_nil
  -- each turn that is taken is one less to come, and a reply gives way to the caller at most once
  cases turns with
  | nil =>
    obtain ⟨rfl, rfl⟩ := List.cons.inj hall
    cases settled with
    | false =>
      refine ⟨stage_asked h ho hnone, ?_⟩
      show (base.calm host (.commanding reply true) running ([] ++ [.caller])).rank < _
      rw [rank_calm, rank_calm]
      simp
    | true =>
      show Descends _ (base.calm host (.commanding reply true) running []).resumeCaller
      rw [resumeCaller_commanding ho]
      refine ⟨.answered h, ?_⟩
      rw [rank_calm, rank_calm]
      simp
  | cons _ turns =>
    obtain ⟨rfl, rfl⟩ := List.cons.inj hall
    have hrest : ∀ turn ∈ turns, turn = .race .own ∨ turn = .reply := fun turn hturn =>
      ht turn (List.mem_cons_of_mem _ hturn)
    rcases ht turn List.mem_cons_self with rfl | rfl
    · refine ⟨.ending h ho hrest, ?_⟩
      show (base.calm host (.commanding reply settled) running
        (turns ++ [if settled then .caller else .reply])).rank < _
      rw [rank_calm, rank_calm]
      simp
    · cases settled with
      | false =>
        refine ⟨stage_asked h ho (harmless_append_reply hrest), ?_⟩
        show (base.calm host (.commanding reply true) running
          (turns ++ [.reply] ++ [.caller])).rank < _
        rw [rank_calm, rank_calm]
        simp
        omega
      | true =>
        refine ⟨stage_asked h ho hrest, ?_⟩
        show (base.calm host (.commanding reply true) running (turns ++ [.caller])).rank < _
        rw [rank_calm, rank_calm]
        simp

/-- A session that takes commands and interrupts descends with each turn. -/
theorem descends_step {session next : Session} (h : Stage session)
    (hs : session.step? = some next) : Descends session.rank next := by
  cases h with
  | rest h => cases hs
  | answered h => cases hs
  | @handling base reply command event h hr hb hk =>
    obtain ⟨lines, hbegin⟩ := takeTurn_command h reply hk []
    have hstep : (base.handling reply command [.command event]).step?
        = some ((base.handling reply command []).takeTurn (.command event)) := step_turn rfl
    rw [hstep, hbegin] at hs
    obtain rfl := Option.some.inj hs
    let begun := (base.publish (base.bench.during (some command) lines)
      [.beginStep command]).ticketed
    have hbegun : begun.Sound :=
      ((h.during (some command) lines).note [.beginStep command]).ticketed
    let job : Job := { reply, cycle := { command, event, interrupt := base.nextTicket } }
    have hjob : job.Sound begun := ⟨hbegun, hr, Nat.lt_succ_self _, fun _ _ hw => by cases hw⟩
    have hpaced : Paced begun.service job ([.run .own] ++ []) :=
      .ahead (.queued hb) rfl fun hd => by cases hd
    refine ⟨.work hjob hpaced, ?_⟩
    -- the turn of the command weighs as much as the whole pursuit that it begins
    show 3 * (2 * base.bench.recording.remaining + 2) + 7
      < 3 * 0 + (6 * base.bench.recording.remaining + 14)
    omega
  | @work base job turns h hp =>
    cases turns with
    | nil => cases hs
    | cons turn turns =>
      obtain rfl := Option.some.inj ((step_work turn).symm.trans hs)
      exact descends_takeTurn h hp
  | @ending base host reply settled running turns command interrupted h ho ht =>
    generalize hall : turns ++ [if settled then Turn.caller else .reply] = all at hs ⊢
    cases all with
    | nil => cases hs
    | cons turn rest =>
      obtain rfl := Option.some.inj ((step_calm host _ running turn).symm.trans hs)
      exact descends_ending h ho ht hall.symm

/-- From every stage there are only so many turns until nothing can move. -/
theorem exists_steps_nil {session : Session} (h : Stage session) :
    ∃ count last, Steps count session last ∧ Stage last ∧ last.turns = [] := by
  -- induction on the rank, which every turn lowers
  induction hn : session.rank using Nat.strongRecOn generalizing session with
  | _ n ih =>
    cases hs : session.step? with
    | none =>
      refine ⟨0, session, .refl session, h, ?_⟩
      rw [step?] at hs
      split at hs
      · assumption
      · cases hs
    | some next =>
      obtain ⟨hstage, hless⟩ := descends_step h hs
      obtain ⟨count, last, hsteps, hlast, hnil⟩ := ih _ (hn ▸ hless) hstage rfl
      exact ⟨count + 1, last, .cons hs hsteps, hlast, hnil⟩

/-! ### Interrupts -/

/-- An interrupt is heard while a command is under way, once. -/
theorem paced_hear {service : Service} (hp : Paced service job turns) (hr : job.heard = false) :
    job.cycle.stopping = false ∧ Paced service job.hear (turns ++ [.race .own]) := by
  have hhear {mark : List Turn} (hm : Mark service job.cycle.run mark)
      (hs : job.cycle.stopping = false) (hd : job.cycle.settled = false) :
      Paced service job.hear (mark ++ [.race .own]) := by
    have hraceTurns : job.hear.raceTurns = [.race .own] := raceTurns_heard hd rfl
    have hpaced : Paced service job.hear (mark ++ job.hear.raceTurns) := .ahead hm hs fun _ => rfl
    rwa [hraceTurns] at hpaced
  -- without an interrupt the race is decided only when the pursuit is over
  have hunsettled (hheard : job.cycle.settled = true → job.heard = true) :
      job.cycle.settled = false := by
    rw [Bool.eq_false_iff]
    intro hd
    exact Bool.false_ne_true (hr.symm.trans (hheard hd))
  cases hp with
  | ahead hm hs hheard =>
    have hd := hunsettled hheard
    rw [raceTurns_unheard hd hr, List.append_nil]
    exact ⟨hs, hhear hm hs hd⟩
  | behind hm hs hheard =>
    have hd := hunsettled hheard
    rw [raceTurns_unheard hd hr, List.nil_append]
    exact ⟨hs, hhear hm hs hd⟩
  | finished hf hb hs hd =>
    have hraceTurns : job.hear.raceTurns = [.race .own] := raceTurns_heard hd rfl
    have hpaced : Paced service job.hear (.race .own :: job.hear.raceTurns) := .finished hf hb hs hd
    rw [hraceTurns] at hpaced
    rw [raceTurns_unheard hd hr]
    exact ⟨hs, hpaced⟩
  | decided hf hb hs hd ht =>
    obtain rfl | ⟨hheard, -⟩ := ht
    · exact ⟨hs, .decided hf hb hs hd (.inr ⟨rfl, .inl rfl⟩)⟩
    · exact absurd (hr.symm.trans hheard) Bool.false_ne_true
  | doomed _ _ _ hheard => exact absurd (hr.symm.trans hheard) Bool.false_ne_true
  | doomedServed _ _ _ hheard => exact absurd (hr.symm.trans hheard) Bool.false_ne_true
  | dropped _ _ _ hheard => exact absurd (hr.symm.trans hheard) Bool.false_ne_true

theorem standing_note {host : Host} (h : base.Standing host) (events : List Event) :
    (base.publish base.bench events).Standing host :=
  ⟨h.sound.note events, h.active, h.service, h.ticket⟩

/-- An interrupt leaves every stage for a stage. -/
theorem stage_interrupt {session : Session} (h : Stage session) :
    Stage (session.put .interrupt).1 := by
  -- it reaches somebody only while a command is under way, and only the first one does
  cases h with
  | @rest base host h =>
    show Stage ((base.calm host .idle none []).put .interrupt).1
    rw [put_interrupt_calm h.sound.order]
    exact .rest (standing_note h _)
  | handling h hr hb hk =>
    have hsignal : EventKind.interrupt ∈ signals := by decide
    rw [put_handling h.order _ _ hsignal (by decide) (by decide)]
    exact .handling (h.note _) hr hb hk
  | @work base job turns h hp =>
    cases hheard : job.heard with
    | true =>
      rw [put_interrupt_again h.sound.order hheard]
      exact .work (h.move (h.sound.note _) (Nat.le_refl _)) hp
    | false =>
      obtain ⟨hs, hhear⟩ := paced_hear hp hheard
      have hsound := (h.sound.note [.interrupt]).took h.interrupt_lt .interrupt
      rw [put_interrupt_first h hheard hs]
      exact .work (h.move hsound (Nat.le_refl _)).hear hhear
  | ending h ho ht =>
    rw [put_interrupt_calm h.sound.order]
    exact .ending (standing_note h _) ho ht
  | answered h =>
    rw [put_interrupt_calm h.sound.order]
    exact .answered (standing_note h _)

/-- It changes nothing that turns depend on, and there is one more turn at most. -/
theorem interrupt_cases {session : Session} (h : Stage session) :
    (session.put .interrupt).1.bench = session.bench ∧
      (session.put .interrupt).1.ownCycle = session.ownCycle ∧
      ((session.put .interrupt).1.turns = session.turns ∨
        (session.put .interrupt).1.turns = session.turns ++ [.race .own]) := by
  -- only a command under way waits for an interrupt, and only for the first one
  cases h with
  | rest h =>
    rw [Base.rest, put_interrupt_calm h.sound.order]
    exact ⟨rfl, rfl, .inl rfl⟩
  | handling h hr hb hk =>
    have hsignal : EventKind.interrupt ∈ signals := by decide
    rw [put_handling h.order _ _ hsignal (by decide) (by decide)]
    exact ⟨rfl, rfl, .inl rfl⟩
  | @work base job turns h hp =>
    cases hheard : job.heard with
    | true =>
      rw [put_interrupt_again h.sound.order hheard]
      exact ⟨rfl, rfl, .inl rfl⟩
    | false =>
      rw [put_interrupt_first h hheard (paced_hear hp hheard).1]
      exact ⟨rfl, rfl, .inr rfl⟩
  | ending h ho ht =>
    rw [put_interrupt_calm h.sound.order]
    exact ⟨rfl, rfl, .inl rfl⟩
  | answered h =>
    rw [put_interrupt_calm h.sound.order]
    exact ⟨rfl, rfl, .inl rfl⟩

/-- A command leaves a session at rest for a stage. -/
theorem stage_give {session : Session} (h : Stage session) (hi : session.caller = .idle)
    {command : Command} {event : Event} (hk : event.kind = .command command) :
    Stage (session.give command event) := by
  cases h with
  | @rest base host h =>
    cases host with
    | crashed fault =>
      rw [give_crashed h.sound]
      exact .answered h
    | ready ticket =>
      have hticket := h.ticket ticket rfl
      have hsound := ((h.sound.note [event]).took hticket event).ticketed
      rw [give_ready h.sound h.active hticket hk]
      exact .handling hsound (Nat.lt_succ_self _) h.service hk
  | handling => cases hi
  | work => cases hi
  | ending => cases hi
  | answered => cases hi

/-- A caller that has its answer leaves the session at rest. -/
theorem stage_release {session : Session} {result : Except Fault Reply} (h : Stage session)
    (ha : session.caller = .answered result) : Stage session.release := by
  cases h with
  | answered h => exact .rest h
  | rest => cases ha
  | handling => cases ha
  | work => cases ha
  | ending => cases ha

/-- When a command waits and nothing can move, the engine has halted. -/
theorem halted_of_waiting {session : Session} (h : Stage session) (ht : session.turns = [])
    {ticket : Ticket} {settled : Bool} (hc : session.caller = .commanding ticket settled) :
    ∃ fault, session.engine = .halted fault := by
  cases h with
  | rest => cases hc
  | handling => cases ht
  | answered => cases hc
  | ending => cases List.append_ne_nil_of_right_ne_nil _ (List.cons_ne_nil _ _) ht
  | @work base job turns h hp =>
    obtain rfl : turns = [] := ht
    generalize hall : ([] : List Turn) = all at hp
    -- a command under way has a turn to come, unless its pursuit is lost
    have hhalted : ∃ fault, base.service = .halted fault := by
      cases hp with
      | ahead hm => exact hm.over_of_nil (List.append_eq_nil_iff.mp hall.symm).1
      | behind hm => exact hm.over_of_nil (List.append_eq_nil_iff.mp hall.symm).2
      | finished => cases hall
      | decided _ _ _ _ ht => rcases ht with rfl | ⟨-, rfl | rfl⟩ <;> cases hall
      | doomed => cases hall
      | doomedServed => cases hall
      | dropped => cases hall
    obtain ⟨fault, hover⟩ := hhalted
    exact ⟨fault, Base.engine_of_halted hover base.channel⟩

end Session

end TraceDebugger
