/-
Everything that a turn can do to a command under way.

The turns to come tell what the next one finds (`Paced`), so there are only so many things that it
can do.  They are listed once (`Turned`), each with what holds before and with the session after it,
and whoever asks what a command keeps to goes through the list.

* `turned_takeTurn` — the list is complete;
* `Turned.core_cases` — a turn leaves what the session has derived from its trace alone, or comes to
  the step under the cursor.
-/
import TraceDebugger.Proofs.Session.Stage

namespace TraceDebugger.Session

variable {base : Base} {job : Job} {turns : List Turn} {turn : Turn}

/-- What a turn does to a command under way: the turn, and the session after it. -/
inductive Turned (base : Base) (job : Job) (turns : List Turn) : Turn → Session → Prop
  /-- The pursuit asks for one more step. -/
  | asks {queued more} (hq : job.cycle.run = .queued queued) (hs : job.cycle.stopping = false)
      (hi : base.service = .idle)
      (hm : resumption base.bench job.cycle queued = .ok (some more)) :
      Turned base job turns (.run .own)
        (base.asked.work (job.withRun (.waiting base.nextTicket more)) (turns ++ [.engine]))
  /-- It asks an engine that has halted. -/
  | loses {queued more} (hq : job.cycle.run = .queued queued) (hs : job.cycle.stopping = false)
      (ho : base.service.isOpen = false)
      (hm : resumption base.bench job.cycle queued = .ok (some more)) :
      Turned base job turns (.run .own)
        (((base.publish base.bench [.next]).ticketed).work
          (job.withRun (.waiting base.nextTicket more)) turns)
  /-- It has come where it wanted. -/
  | arrives {queued lines} (hq : job.cycle.run = .queued queued) (hs : job.cycle.stopping = false)
      (hb : base.service ≠ .busy) (hm : resumption base.bench job.cycle queued = .ok none) :
      Turned base job turns (.run .own)
        ((base.on (base.bench.logged lines)).work (job.withRun (.finished none))
          (turns ++ [.race .own]))
  /-- It cannot look where it has come to. -/
  | fails {queued fault} (hq : job.cycle.run = .queued queued) (hs : job.cycle.stopping = false)
      (hb : base.service ≠ .busy) (hm : resumption base.bench job.cycle queued = .error fault) :
      Turned base job turns (.run .own)
        (base.work (job.withRun (.finished (some fault))) (turns ++ [.race .own]))
  /-- It is dropped. -/
  | drops {queued} (hq : job.cycle.run = .queued queued) (hs : job.cycle.stopping = true)
      (hb : base.service ≠ .busy) :
      Turned base job turns (.run .own)
        (base.work (job.withRun .cancelled) (turns ++ [.cycle .own]))
  /-- The engine processes the step that the pursuit waits for. -/
  | serves {ticket pursuit events lines} (hw : job.cycle.run = .waiting ticket pursuit)
      (hs : job.cycle.stopping = false) (hb : base.service = .busy)
      (hp : base.bench.passage = .ok events) :
      Turned base job turns .engine
        (((base.stepped lines events).took ticket base.bench.closing).work
          (job.withRun (.queued (some pursuit))) (turns ++ [.run .own]))
  /-- It processes a step that nobody waits for any more. -/
  | servesLast {queued events lines} (hq : job.cycle.run = .queued queued)
      (hs : job.cycle.stopping = true) (hr : job.heard = true) (hb : base.service = .busy)
      (hp : base.bench.passage = .ok events) :
      Turned base job turns .engine ((base.stepped lines events).work job turns)
  /-- It halts at a step that cannot be processed. -/
  | halts {fault events lines} (hb : base.service = .busy)
      (hp : base.bench.passage = .error fault) (hd : ∀ event ∈ events, Event.Derived event) :
      Turned base job turns .engine ((base.stalled lines events fault).work job turns)
  /-- The race is decided. -/
  | decides (hd : job.cycle.settled = false) (hs : job.cycle.stopping = false) :
      Turned base job turns (.race .own) (base.work job.settle (turns ++ [.cycle .own]))
  /-- It was before. -/
  | decided (hd : job.cycle.settled = true) (hs : job.cycle.stopping = false) :
      Turned base job turns (.race .own) (base.work job turns)
  /-- The dispatcher learns that an interrupt has won, and stops a pursuit that has a turn to
  come. -/
  | dooms {queued} (hq : job.cycle.run = .queued queued) (hs : job.cycle.stopping = false) :
      Turned base job turns (.cycle .own) (base.work job.stop turns)
  /-- It stops one that waits for a step. -/
  | recalls {ticket pursuit} (hw : job.cycle.run = .waiting ticket pursuit)
      (hs : job.cycle.stopping = false) :
      Turned base job turns (.cycle .own)
        (base.work (job.stop.withRun (.queued (some pursuit))) (turns ++ [.run .own]))
  /-- The cycle of a pursuit that is over or has been dropped ends. -/
  | ends {interrupted lines} (he : job.cycle.run.ended = some (interrupted, none))
      (hs : job.cycle.stopping = interrupted) (hb : base.service ≠ .busy) :
      Turned base job turns (.cycle .own)
        (((base.on (base.bench.during none lines)).closed job.reply job.cycle.command
            interrupted).ticketed.calm (.ready base.nextTicket) (.commanding job.reply false)
          (some job.cycle.command) (turns ++ [.reply]))
  /-- That of a pursuit that has failed takes the dispatcher with it. -/
  | crashes {fault lines} (hf : job.cycle.run = .finished (some fault))
      (hs : job.cycle.stopping = false) (hb : base.service ≠ .busy) :
      Turned base job turns (.cycle .own)
        (((base.on (base.bench.during none lines)).closed job.reply job.cycle.command
            false).calm (.crashed fault) (.commanding job.reply false)
          (some job.cycle.command) (turns ++ [.reply] ++ [.reply]))

/-- A pursuit on its way has its turn. -/
theorem turned_run (h : job.Sound base) {queued : Option Pursuit}
    (hq : job.cycle.run = .queued queued) (hs : job.cycle.stopping = false)
    (hb : base.service ≠ .busy) :
    Turned base job turns (.run .own) ((base.work job turns).resumeRun .own) := by
  have htakers := Job.takers_of_queued hq
  -- it fails, has come where it wanted, or asks for one more step
  cases hm : resumption base.bench job.cycle queued with
  | error fault =>
    rw [resumeRun_failed hq hs hm]
    exact .fails hq hs hb hm
  | ok next =>
    cases next with
    | none =>
      obtain ⟨lines, hlast⟩ := resumeRun_over hq hs hm turns
      rw [hlast]
      exact .arrives hq hs hb hm
    | some more =>
      rw [resumeRun_on hq hs hm]
      cases hservice : base.service with
      | busy => exact absurd hservice hb
      | idle =>
        rw [requestStep_idle h hservice htakers more]
        exact .asks hq hs hservice hm
      | halted fault =>
        have hclosed := Base.isOpen_of_halted hservice
        rw [requestStep_over h hclosed htakers more]
        exact .loses hq hs hclosed hm

/-- The engine has its turn. -/
theorem turned_serve (h : job.Sound base) (hb : base.service = .busy)
    (hr : (∃ ticket pursuit, job.cycle.run = .waiting ticket pursuit ∧ job.cycle.stopping = false) ∨
      ∃ queued, job.cycle.run = .queued queued ∧ job.cycle.stopping = true ∧ job.heard = true) :
    Turned base job turns .engine (base.work job turns).serve := by
  cases hp : base.bench.passage with
  | error fault =>
    obtain ⟨lines, events, hderived, hserve⟩ : ∃ lines events, (∀ event ∈ events,
        Event.Derived event) ∧ (base.work job turns).serve = _ := serve_stall h.sound hb hp
    rw [hserve]
    exact .halts hb hp hderived
  | ok events =>
    -- somebody waits for the reply, or the pursuit that asked for the step is to be dropped
    rcases hr with ⟨ticket, pursuit, hw, hs⟩ | ⟨queued, hq, hs, hheard⟩
    · obtain ⟨lines, hserve⟩ : ∃ lines, (base.work job turns).serve = _ := serve_awaited h hb hw hp
      rw [hserve]
      exact .serves hw hs hb hp
    · obtain ⟨lines, hserve⟩ : ∃ lines, (base.work job turns).serve = _ :=
        serve_unawaited h.sound hb (Job.takers_of_queued hq) hp
      rw [hserve]
      exact .servesLast hq hs hheard hb hp

/-- The cycle of a pursuit that is over has its turn. -/
theorem turned_end (h : job.Sound base) {interrupted : Bool} {fault : Option Fault}
    (he : job.cycle.run.ended = some (interrupted, fault))
    (hs : job.cycle.stopping = interrupted) (hb : base.service ≠ .busy) :
    Turned base job turns (.cycle .own) ((base.work job turns).resumeCycle .own) := by
  cases fault with
  | none =>
    obtain ⟨lines, hend⟩ := resumeCycle_ok h he turns
    rw [hend]
    exact .ends he hs hb
  | some fault =>
    -- only a pursuit that was not dropped can have failed
    obtain ⟨rfl, hf⟩ : interrupted = false ∧ job.cycle.run = .finished (some fault) := by
      cases hrun : job.cycle.run with
      | finished fault' =>
        rw [hrun] at he
        obtain ⟨rfl, rfl⟩ := Prod.mk.inj (Option.some.inj he)
        exact ⟨rfl, rfl⟩
      | _ => rw [hrun] at he; cases he
    obtain ⟨lines, hend⟩ := resumeCycle_fault h he turns
    rw [hend]
    exact .crashes hf hs hb

/-- Whoever brings the pursuit forward has its turn. -/
theorem turned_mark (h : job.Sound base) {mark : List Turn}
    (hm : Mark base.service job.cycle.run mark) (hs : job.cycle.stopping = false)
    (ht : turn ∈ mark) : Turned base job turns turn ((base.work job turns).takeTurn turn) := by
  generalize hrun : job.cycle.run = run at hm
  generalize hservice : base.service = service at hm
  cases hm with
  | queued hb =>
    obtain rfl := List.mem_singleton.mp ht
    exact turned_run h hrun hs (hservice ▸ hb)
  | @served ticket pursuit =>
    obtain rfl := List.mem_singleton.mp ht
    exact turned_serve h hservice (.inl ⟨ticket, pursuit, hrun, hs⟩)
  | lost => exact absurd ht List.not_mem_nil

/-- The cycle learns how the race stands while the pursuit is on its way. -/
theorem turned_raceTurns (h : job.Sound base) {mark : List Turn}
    (hm : Mark base.service job.cycle.run mark) (hs : job.cycle.stopping = false)
    (hr : job.cycle.settled = true → job.heard = true) (ht : turn ∈ job.raceTurns) :
    Turned base job turns turn ((base.work job turns).takeTurn turn) := by
  obtain hraceTurns | ⟨hraceTurns, hd, -⟩ | ⟨hraceTurns, -, -⟩ :=
      raceTurns_cases hr <;> rw [hraceTurns] at ht
  · exact absurd ht List.not_mem_nil
  · obtain rfl := List.mem_singleton.mp ht
    show Turned base job turns (.race .own) ((base.work job turns).settleRace .own)
    rw [settleRace_first hd]
    exact .decides hd hs
  · obtain rfl := List.mem_singleton.mp ht
    -- a pursuit that waits for a step is stopped alike, whether the engine will serve it or not
    have hdoomed {ticket : Ticket} {pursuit : Pursuit}
        (hw : job.cycle.run = .waiting ticket pursuit) :
        Turned base job turns (.cycle .own) ((base.work job turns).resumeCycle .own) := by
      rw [resumeCycle_waiting h hw]
      exact .recalls hw hs
    generalize hrun : job.cycle.run = run at hm
    generalize base.service = service at hm
    cases hm with
    | queued =>
      show Turned base job turns (.cycle .own) ((base.work job turns).resumeCycle .own)
      rw [resumeCycle_queued hrun]
      exact .dooms hrun hs
    | served => exact hdoomed hrun
    | lost => exact hdoomed hrun

/-- Every turn of a command under way is in the list. -/
theorem turned_takeTurn (h : job.Sound base) (hp : Paced base.service job (turn :: turns)) :
    Turned base job turns turn ((base.work job turns).takeTurn turn) := by
  generalize hall : turn :: turns = all at hp
  have hturn : turn ∈ all := hall ▸ List.mem_cons_self
  -- by the order in which the turns to come may stand
  cases hp with
  | ahead hm hs hr =>
    rcases List.mem_append.mp hturn with ht | ht
    · exact turned_mark h hm hs ht
    · exact turned_raceTurns h hm hs hr ht
  | behind hm hs hr =>
    rcases List.mem_append.mp hturn with ht | ht
    · exact turned_raceTurns h hm hs hr ht
    · exact turned_mark h hm hs ht
  | finished hf hb hs hd =>
    obtain ⟨rfl, rfl⟩ := List.cons.inj hall
    show Turned base job job.raceTurns (.race .own) ((base.work job job.raceTurns).settleRace .own)
    rw [settleRace_first hd]
    exact .decides hd hs
  | @decided fault _ hf hb hs hd ht =>
    have hended : job.cycle.run.ended = some (false, fault) := by
      rw [hf]
      rfl
    have hrace : Turned base job turns (.race .own) ((base.work job turns).settleRace .own) := by
      rw [settleRace_again hd]
      exact .decided hd hs
    rcases ht with rfl | ⟨-, rfl | rfl⟩ <;> obtain ⟨rfl, -⟩ := List.cons.inj hall
    · exact turned_end h hended hs hb
    · exact turned_end h hended hs hb
    · exact hrace
  | doomed hq hb hs hr =>
    obtain ⟨rfl, -⟩ := List.cons.inj hall
    show Turned base job turns (.run .own) ((base.work job turns).resumeRun .own)
    rw [resumeRun_stopping (Job.takers_of_queued hq) hs]
    exact .drops hq hs hb
  | @doomedServed queued hq hb hs hr =>
    obtain ⟨rfl, -⟩ := List.cons.inj hall
    exact turned_serve h hb (.inr ⟨queued, hq, hs, hr⟩)
  | dropped hc hb hs hr =>
    obtain ⟨rfl, -⟩ := List.cons.inj hall
    have hended : job.cycle.run.ended = some (true, none) := by
      rw [hc]
      rfl
    exact turned_end h hended hs hb

/-- A turn leaves what the session has derived from its trace alone, or comes to the step under the
cursor. -/
theorem Turned.core_cases {next : Session} (h : Turned base job turns turn next) :
    next.bench.core = base.bench.core ∨ (∃ fault, base.bench.passage = .error fault) ∨
      ∃ events, base.bench.passage = .ok events ∧
        next.bench.core = (base.bench.past events).core := by
  cases h with
  | serves _ _ _ hp => exact .inr (.inr ⟨_, hp, rfl⟩)
  | servesLast _ _ _ _ hp => exact .inr (.inr ⟨_, hp, rfl⟩)
  | halts _ hp => exact .inr (.inl ⟨_, hp⟩)
  | _ => exact .inl rfl

end TraceDebugger.Session
