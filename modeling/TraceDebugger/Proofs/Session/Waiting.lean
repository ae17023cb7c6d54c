/-
Commands that are left waiting.

Commands and interrupts may come in any order, an interrupt at any moment, a command when no other
one is pending (`Reachable`).  Nothing goes on for ever, and a command is left waiting only by an
engine that has halted.  When the engine comes to a step that cannot be processed, however, nobody
tells the command that waits for the step: it waits until it is interrupted, and so does every later
one.

* `Reachable.stage` — every state of a session is a stage;
* `rest_carryOut` — what comes of a command that is given to a session at rest;
* `command_waits_iff` — which commands are left waiting;
* `malformed_advance_waits` — a single step is enough for that.
-/
import TraceDebugger.Proofs.Session.Orders
import TraceDebugger.Proofs.Session.Stage

namespace TraceDebugger.Session

/-- The states of a session after it has loaded a trace. -/
inductive Reachable : Session → Prop
  | loaded {session} (h : Loaded session) : Reachable session
  /-- A command is given when no other one is pending. -/
  | give {session} (h : Reachable session) (hi : session.caller = .idle) (order : Order) :
      Reachable (session.give order.command order.event)
  | turn {session next} (h : Reachable session) (hs : session.step? = some next) : Reachable next
  /-- An interrupt comes at any moment. -/
  | interrupt {session} (h : Reachable session) : Reachable (session.put .interrupt).1
  /-- The caller goes away with its answer. -/
  | release {session result} (h : Reachable session) (ha : session.caller = .answered result) :
      Reachable session.release

/-- A command waits and nothing can move. -/
def Waits (session : Session) : Prop :=
  session.turns = [] ∧ ∃ ticket settled, session.caller = .commanding ticket settled

/-- The dispatcher takes an order and its pursuit begins, but the engine has halted or comes to a
step that cannot be processed. -/
def Strands (session : Session) (order : Order) : Prop :=
  (∀ fault, session.dispatcher ≠ .crashed fault) ∧
    ∃ pursuit, session.bench.begin order.event order.command = .ok pursuit ∧
      ((∃ fault, session.engine = .halted fault) ∨ ∃ fault, session.bench.Stalls pursuit fault)

variable {session : Session}

/-- Every state of a session is a stage. -/
theorem Reachable.stage (h : Reachable session) : Stage session := by
  induction h with
  | loaded h =>
    obtain ⟨steps, hfresh⟩ := h.fresh
    obtain ⟨base, ticket, rfl, hstanding, -⟩ := hfresh.exists_rest
    exact .rest hstanding
  | give _ hi order ih => exact stage_give ih hi order.event_kind
  | turn _ hs ih => exact (descends_step ih hs).1
  | interrupt _ ih => exact stage_interrupt ih
  | release _ ha ih => exact stage_release ih ha

theorem Reachable.steps {count : Nat} {last : Session} (h : Reachable session)
    (hs : Steps count session last) : Reachable last := by
  induction hs with
  | refl => exact h
  | cons hs _ ih => exact ih (h.turn hs)

theorem Loaded.idle (h : Loaded session) : session.caller = .idle := by
  obtain ⟨steps, hfresh⟩ := h.fresh
  obtain ⟨base, ticket, rfl, -⟩ := hfresh.exists_rest
  rfl

theorem Reachable.runFor (h : Reachable session) (limit : Nat) :
    Reachable (Session.runFor limit session) := by
  obtain ⟨count, hsteps⟩ := exists_steps_runFor limit session
  exact h.steps hsteps

theorem Reachable.settle (h : Reachable session) : Reachable session.settle :=
  h.runFor session.turnLimit

theorem Stranded.waits_settle {fault : Fault} {base : Base} {job : Job}
    (h : Stranded session fault base job) : session.Waits := by
  rw [h.eq_work]
  exact ⟨rfl, job.reply, false, rfl⟩

/-- A command that is given to a session at rest is left waiting, or it returns or raises. -/
theorem rest_carryOut {base : Base} {host : Host} (h : base.Standing host) (order : Order) :
    ((base.rest host).Strands order ∧
        ((base.rest host).give order.command order.event).settle.Waits ∧
        ((base.rest host).carryOut order).2.stuck = true) ∨
      ¬ (base.rest host).Strands order ∧
        ∃ result, ((base.rest host).carryOut order).2 = ⟨some result, false⟩ := by
  have hstranded {fault : Fault} {base' : Base} {job : Job}
      (hs : Stranded ((base.rest host).give order.command order.event).settle fault base' job) :
      ((base.rest host).give order.command order.event).settle.Waits ∧
        ((base.rest host).carryOut order).2.stuck = true := by
    obtain ⟨base'', ticket', hconclude, -⟩ := hs.conclude
    refine ⟨hs.waits_settle, ?_⟩
    show ((base.rest host).give order.command order.event).conclude.2.stuck = true
    rw [hconclude]
  cases host with
  | crashed fault =>
    refine .inr ⟨fun hs => hs.1 fault rfl, .error fault, ?_⟩
    rw [carryOut, perform_crashed h]
  | ready ticket =>
    have hdispatcher (fault : Fault) : (base.rest (.ready ticket)).dispatcher ≠ .crashed fault :=
      fun h => by cases h
    cases hb : base.bench.begin order.event order.command with
    | error fault =>
      refine .inr ⟨?_, .error fault, ?_⟩
      · rintro ⟨-, pursuit, hpursuit, -⟩
        cases hb.symm.trans hpursuit
      -- the dispatcher raises what kept the pursuit from beginning
      · obtain ⟨base', hperform, -⟩ := perform_unbegun h order.event_kind hb
        rw [carryOut, hperform]
    | ok pursuit =>
      cases hservice : base.service with
      | busy => exact absurd hservice h.service
      | halted fault =>
        have hengine : (base.rest (.ready ticket)).engine = .halted fault :=
          Base.engine_of_halted hservice base.channel
        obtain ⟨base', job, hs⟩ := stranded_of_over h hservice order.event_kind hb
        exact .inl ⟨⟨hdispatcher, pursuit, hb, .inl ⟨fault, hengine⟩⟩, hstranded hs⟩
      | idle =>
        have hpoised := h.sound.poised (Base.isOpen_of_idle hservice)
        rcases Workbench.runs_or_stalls hpoised pursuit with
          ⟨blocks, reached, fault, hruns⟩ | ⟨fault, hstalls⟩
        · refine .inr ⟨?_, ?_⟩
          · rintro ⟨-, pursuit', hpursuit, ⟨fault', hhalted⟩ | ⟨fault', hstalls⟩⟩
            · have hengine : base.service.engine base.channel = .halted fault' := hhalted
              rw [hservice] at hengine
              cases hengine
            · obtain rfl := Except.ok.inj (hb.symm.trans hpursuit)
              exact hruns.not_stalls fault' hstalls
          · cases fault with
            | none =>
              obtain ⟨base', ticket', hperform, -⟩ :=
                perform_runs h hservice order.event_kind hb hruns
              exact ⟨.ok (.flag true), by rw [carryOut, hperform]⟩
            | some fault =>
              obtain ⟨base', hperform, -⟩ := perform_fails h hservice order.event_kind hb hruns
              exact ⟨.error fault, by rw [carryOut, hperform]⟩
        · obtain ⟨base', job, hs⟩ := stranded_of_stalls h hservice order.event_kind hb hstalls
          exact .inl ⟨⟨hdispatcher, pursuit, hb, .inr ⟨fault, hstalls⟩⟩, hstranded hs⟩

/-- A stage without a caller is at rest. -/
theorem rest_of_idle (h : Stage session) (hi : session.caller = .idle) :
    ∃ base host, session = Base.rest base host ∧ base.Standing host := by
  cases h with
  | rest h => exact ⟨_, _, rfl, h⟩
  | handling => cases hi
  | work => cases hi
  | ending => cases hi
  | answered => cases hi

/-- **Commands that are left waiting.** From every state only so many turns can be taken.  If a
command waits then, the engine has halted.  A command that is given when none is pending is left
waiting exactly if the dispatcher takes it and its pursuit begins, but the engine has halted before
or comes to a step that cannot be processed; every other one returns or raises. -/
theorem command_waits_iff (h : Reachable session) :
    (∃ count last, Steps count session last ∧ Reachable last ∧ last.turns = []) ∧
    (session.Waits → ∃ fault, session.engine = .halted fault) ∧
    (session.caller = .idle → ∀ order : Order,
      (session.Strands order ∧ (session.give order.command order.event).settle.Waits ∧
          (session.carryOut order).2.stuck = true) ∨
        ¬ session.Strands order ∧ ∃ result, (session.carryOut order).2 = ⟨some result, false⟩) := by
  refine ⟨?_, ?_, ?_⟩
  · obtain ⟨count, last, hsteps, -, hnil⟩ := exists_steps_nil h.stage
    exact ⟨count, last, hsteps, h.steps hsteps, hnil⟩
  · rintro ⟨hnil, ticket, settled, hc⟩
    exact halted_of_waiting h.stage hnil hc
  · intro hi order
    obtain ⟨base, host, rfl, hstanding⟩ := rest_of_idle h.stage hi
    exact rest_carryOut hstanding order

theorem brief_command_waits_iff :
    Reachable brief ∧ brief.caller = .idle ∧
      ((brief.Strands .stepOut ∧ (brief.give .stepOut (.ofCommand .stepOut)).settle.Waits ∧
          (brief.carryOut .stepOut).2.stuck = true) ∨
        ¬ brief.Strands .stepOut ∧
          ∃ result, (brief.carryOut .stepOut).2 = ⟨some result, false⟩) := by
  have hidle : brief.caller = .idle := by
    obtain ⟨steps, hfresh⟩ := loaded_brief.fresh
    obtain ⟨base, ticket, hbrief, -⟩ := hfresh.exists_rest
    rw [hbrief]
    rfl
  have hreachable : Reachable brief := .loaded loaded_brief
  exact ⟨hreachable, hidle, (command_waits_iff hreachable).2.2 hidle .stepOut⟩

/-! ### A malformed word -/

/-- A step that deploys code, with a word on its stack that is no number. -/
def malformedSteps : List Step :=
  [{ pc := 0, op := "CREATE", stack := some ["zz", "1", "0"], memory := some "00" }]

/-- A session that has loaded that step. -/
def malformed : Session := ((new {} none 1).perform (.load malformedSteps none none)).1

theorem loaded_malformed : Loaded malformed := loaded_of_callTargets rfl _ _ _ _

/-- A single advance over it is left waiting. -/
theorem malformed_advance_waits :
    Loaded malformed ∧ malformed.caller = .idle ∧
      Reachable (malformed.give .advance (.ofCommand .advance)).settle ∧
      (malformed.give .advance (.ofCommand .advance)).settle.Waits := by
  obtain ⟨steps, hfresh⟩ := loaded_malformed.fresh
  obtain ⟨base, ticket, hrest, hstanding, -⟩ := hfresh.exists_rest
  have hidle : malformed.caller = .idle := by
    rw [hrest]
    rfl
  have hreachable : Reachable malformed := .loaded loaded_malformed
  have hstuck : (malformed.carryOut .advance).2.stuck = true := by decide +kernel
  -- a command that returned or raised would not be stuck
  refine ⟨loaded_malformed, hidle, (hreachable.give hidle .advance).settle, ?_⟩
  rw [hrest] at hstuck ⊢
  rcases rest_carryOut hstanding .advance with ⟨-, hwaits, -⟩ | ⟨-, result, hresult⟩
  · exact hwaits
  · rw [hresult] at hstuck
    cases hstuck

end TraceDebugger.Session
