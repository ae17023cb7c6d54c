/-
The trail of a call.

Of a command three things are published: that it was given, that its cycle begins and that the cycle
has ended, in this order.  How many of them have been tells how far the command is.  The turns that
are left for it are bounded, and interrupts do not add to the bound, since only the first one is
heard.

* `marks` — the events that tell of commands;
* `Trailing` — how far an order is, by what has been published of it;
* `At.trailing_give`, `Trailing.step`, `Trailing.interrupt` — an order that is given leaves its
  trail, turn by turn.
-/
import TraceDebugger.Proofs.Session.Race

namespace TraceDebugger

/-! ### Marks -/

/-- The kinds of the events that tell of commands. -/
def EventKind.marks : List EventKind := .beginStep :: .endStep :: EventKind.commands

/-- The events among some others that tell of commands. -/
def marks (events : List Event) : List Event :=
  events.filter fun event => event.kind ∈ EventKind.marks

theorem marks_append (first second : List Event) :
    marks (first ++ second) = marks first ++ marks second := List.filter_append ..

theorem marks_reverse (events : List Event) : marks events.reverse = (marks events).reverse :=
  List.filter_reverse

theorem marks_cons_of_mark {event : Event} (h : event.kind ∈ EventKind.marks)
    (events : List Event) :
    marks (event :: events) = event :: marks events :=
  List.filter_cons_of_pos (by simpa using h)

theorem marks_cons_of_not {event : Event} (h : event.kind ∉ EventKind.marks) (events : List Event) :
    marks (event :: events) = marks events :=
  List.filter_cons_of_neg (by simpa using h)

theorem marks_eq_nil {events : List Event} (h : ∀ event ∈ events, event.kind ∉ EventKind.marks) :
    marks events = [] :=
  List.filter_eq_nil_iff.mpr fun event he => by simpa using h event he

theorem mark_of_order (order : Order) : order.event.kind ∈ EventKind.marks := by
  rw [order.event_kind]
  cases order.command <;> decide

theorem mark_beginStep (command : Command) : (Event.beginStep command).kind ∈ EventKind.marks :=
  List.mem_cons_self

theorem mark_endStep (command : Command) (interrupted : Bool) :
    (Event.endStep command interrupted).kind ∈ EventKind.marks :=
  List.mem_cons_of_mem _ List.mem_cons_self

theorem ends_marks (events : List Event) : ends (marks events) = ends events := by
  rw [ends, ends, marks, List.filter_filter]
  refine List.filter_congr fun event _ => ?_
  by_cases hk : event.kind = .endStep
  · rw [hk]
    rfl
  · simp [hk]

/-- Processing a step tells nothing of commands. -/
theorem marks_steps {events : List Event} (h : ∀ event ∈ events, event.kind ∈ EventKind.ofSteps)
    (published : List Event) : marks (events.reverse ++ published) = marks published := by
  have hapart : ∀ kind ∈ EventKind.ofSteps, kind ∉ EventKind.marks := by decide
  have hnone : marks events.reverse = [] := marks_eq_nil fun event he =>
    hapart _ (h event (List.mem_reverse.mp he))
  rw [marks_append, hnone, List.nil_append]

namespace Session

/-! ### Trails -/

/-- How far an order is, by what has been published of it, the latest first: it has been given, its
cycle has begun, or its cycle has ended and its caller has yet to learn of that.  So many turns are
left for it at most. -/
inductive Marked (order : Order) (before : List Event) (left : Nat) : Session → Prop
  | given {base : Base} {reply : Ticket} (h : base.Sound)
      (hm : marks base.published = order.event :: before)
      (hl : (base.handling reply order.command [.command order.event]).rank + 6 ≤ left) :
      Marked order before left (base.handling reply order.command [.command order.event])
  | underway {base : Base} {job : Job} {turns : List Turn} (hc : job.cycle.command = order.command)
      (hm : marks base.published = .beginStep order.command :: order.event :: before)
      (hl : (base.work job turns).rank + (if job.heard then 0 else 6) ≤ left) :
      Marked order before left (base.work job turns)
  | ended {session : Session} {interrupted : Bool}
      (h : CommandOver order.command interrupted session)
      (hr : (∃ result, session.caller = .answered result) ∨ session.running = some order.command)
      (hm : marks session.store.published
        = .endStep order.command interrupted :: .beginStep order.command :: order.event :: before)
      (hl : session.rank ≤ left) : Marked order before left session

/-- An order in one of its phases, with its trail. -/
structure Trailing (start : Workbench) (order : Order) (before : List Event) (left : Nat)
    (session : Session) : Prop where
  orderOnCourse : ∃ low ended found, OrderOnCourse start low order ended found session
  marked : Marked order before left session

variable {start : Workbench} {order : Order} {before : List Event} {left : Nat}
  {session next : Session} {base : Base} {job : Job} {turns : List Turn} {turn : Turn}
  {ticket : Ticket}

/-- A turn of a command under way tells nothing of commands, or ends the command. -/
theorem Turned.marks_cases (h : Turned base job turns turn next) :
    (∃ (base' : Base) (job' : Job) (turns' : List Turn), next = base'.work job' turns' ∧
      job'.cycle.command = job.cycle.command ∧ job'.heard = job.heard ∧
      marks base'.published = marks base.published) ∨
    ∃ interrupted, next.running = some job.cycle.command ∧
      marks next.store.published
        = .endStep job.cycle.command interrupted :: marks base.published := by
  -- steps and requests are no marks of a command, and only its end is one
  cases h with
  | serves _ _ _ hp =>
    exact .inl ⟨_, _, _, rfl, rfl, rfl, marks_steps (Workbench.kinds_of_passage hp) _⟩
  | servesLast _ _ _ _ hp =>
    exact .inl ⟨_, _, _, rfl, rfl, rfl, marks_steps (Workbench.kinds_of_passage hp) _⟩
  | @halts _ events _ _ _ hd =>
    have hkinds : ∀ event ∈ Event.tick :: events, event.kind ∈ EventKind.ofSteps := by
      intro event he
      obtain rfl | he := List.mem_cons.mp he
      · exact List.mem_cons_self
      · exact List.mem_append_left _ (List.mem_cons_of_mem _ (hd event he).kind_mem)
    exact .inl ⟨_, _, _, rfl, rfl, rfl, marks_steps hkinds _⟩
  | @ends interrupted => exact .inr ⟨interrupted, rfl, marks_cons_of_mark (mark_endStep _ _) _⟩
  | crashes => exact .inr ⟨false, rfl, marks_cons_of_mark (mark_endStep _ _) _⟩
  | asks | loses => exact .inl ⟨_, _, _, rfl, rfl, rfl, marks_cons_of_not (by decide) _⟩
  | _ => exact .inl ⟨_, _, _, rfl, rfl, rfl, rfl⟩

/-- The caller's command stays until the caller has its answer. -/
theorem CommandOver.running_step {command : Command} {interrupted : Bool}
    (h : CommandOver command interrupted session) (hn : session.step? = some next) :
    next.running = session.running ∨ ∃ result, next.caller = .answered result := by
  cases h with
  | answered => cases hn
  | @ending base ticket reply settled running turns h hi ho ht =>
    -- only the caller's own turn clears its command
    cases turns with
    | nil =>
      cases settled with
      | false =>
        obtain rfl := Option.some.inj hn
        exact .inl rfl
      | true =>
        have hanswer : (base.calm (.ready ticket) (.commanding reply true) running []).resumeCaller
            = base.calm (.ready ticket) (.answered (.ok (.flag !interrupted))) none [] :=
          resumeCaller_commanding ho
        obtain rfl := Option.some.inj ((congrArg some hanswer).symm.trans hn)
        exact .inr ⟨_, rfl⟩
    | cons turn turns =>
      obtain rfl := Option.some.inj hn
      rcases ht turn List.mem_cons_self with rfl | rfl
      · exact .inl rfl
      · cases settled <;> exact .inl rfl

theorem CommandOver.ownCycle {command : Command} {interrupted : Bool}
    (h : CommandOver command interrupted session) : session.ownCycle = none := by
  cases h <;> rfl

/-- An interrupt is no concern of a caller whose command is over. -/
theorem CommandOver.interrupt_same {command : Command} {interrupted : Bool}
    (h : CommandOver command interrupted session) :
    (session.put .interrupt).1.caller = session.caller ∧
      (session.put .interrupt).1.running = session.running ∧
      (session.put .interrupt).1.rank = session.rank := by
  cases h with
  | ending h =>
    rw [put_interrupt_calm h.sound.order]
    exact ⟨rfl, rfl, rfl⟩
  | answered h =>
    rw [put_interrupt_calm h.sound.order]
    exact ⟨rfl, rfl, rfl⟩

/-- An order that is given leaves its first mark. -/
theorem At.trailing_give (h : At start base ticket session) (order : Order) :
    ∃ left, Trailing start order (marks session.store.published) left
        (session.give order.command order.event) ∧
      (session.give order.command order.event).answer? = none := by
  have hroute := h.orderOnCourse_give order
  have hticket := h.standing.ticket ticket rfl
  obtain rfl := h.eq_rest
  rw [give_ready h.standing.sound h.standing.active hticket order.event_kind] at hroute ⊢
  have hsound := ((h.standing.sound.note [order.event]).took hticket order.event).ticketed
  exact ⟨_, ⟨⟨_, _, _, hroute⟩,
    .given hsound (marks_cons_of_mark (mark_of_order order) _) (Nat.le_refl _)⟩, rfl⟩

/-- The cycle of an order begins. -/
theorem marked_begin {reply : Ticket} (h : base.Sound)
    (hs : Stage (base.handling reply order.command [.command order.event]))
    (hm : marks base.published = order.event :: before)
    (hl : (base.handling reply order.command [.command order.event]).rank + 6 ≤ left)
    (hn : (base.handling reply order.command [.command order.event]).step? = some next) :
    ∃ left' < left, Marked order before left' next := by
  -- the rank falls with the turn, so that the turns that are left are enough after it
  obtain ⟨-, hless⟩ := descends_step hs hn
  obtain ⟨lines, hbegin⟩ := takeTurn_command h reply order.event_kind []
  obtain rfl : _ = next := Option.some.inj hn
  have hnext : ({ base.handling reply order.command [.command order.event] with turns := [] }
      : Session).takeTurn (.command order.event) = _ := hbegin
  rw [hnext] at hless ⊢
  refine ⟨_, ?_, .underway rfl ?_ (Nat.le_refl _)⟩
  · show _ + 6 < left
    omega
  · exact (marks_cons_of_mark (mark_beginStep _) _).trans (congrArg (List.cons _) hm)

/-- The cycle of an order goes on or ends. -/
theorem marked_takeTurn {low : Nat} {ended : List Event} {found found' : Option Bool}
    (hroute : OrderOnCourse start low order ended found (base.work job (turn :: turns)))
    (hnext : OrderOnCourse start low order ended found' ((base.work job turns).takeTurn turn))
    (hc : job.cycle.command = order.command)
    (hm : marks base.published = .beginStep order.command :: order.event :: before)
    (hl : (base.work job (turn :: turns)).rank + (if job.heard then 0 else 6) ≤ left) :
    ∃ left' < left, Marked order before left' ((base.work job turns).takeTurn turn) := by
  obtain ⟨hsound, hpaced⟩ := sound_paced_of_stage hroute.orderPhase.stage
  obtain ⟨-, hless⟩ := descends_takeTurn hsound hpaced
  obtain ⟨base', job', turns', hwork, hcommand, hheard, hsame⟩ | ⟨interrupted, hrunning, hend⟩ :=
    (turned_takeTurn hsound hpaced).marks_cases
  · rw [hwork] at hless ⊢
    refine ⟨_, ?_, .underway (hcommand.trans hc) (hsame.trans hm) (Nat.le_refl _)⟩
    rw [hheard]
    omega
  · rw [hc] at hrunning hend
    -- the end that was published is the end that the caller will learn of
    have hends : ends ((base.work job turns).takeTurn turn).store.published
        = .endStep order.command interrupted :: ends base.published := by
      rw [← ends_marks, hend, ← ends_marks base.published]
      rfl
    obtain ⟨hended, -⟩ | ⟨_, -, -, hover⟩ := hroute.orderPhase.cases_end
    · obtain ⟨hended', -⟩ | ⟨interrupted', -, hended', hover⟩ := hnext.orderPhase.cases_end
      · exact absurd (hends.symm.trans (hended'.trans hended.symm)) (List.cons_ne_self _ _)
      · obtain ⟨hsame, -⟩ := List.cons.inj (hends.symm.trans hended')
        obtain rfl : interrupted = interrupted' :=
          Option.some.inj (congrArg (fun event : Event => event.payload.interrupted) hsame)
        exact ⟨_, by omega, .ended hover (.inr hrunning) (hend.trans (congrArg _ hm))
          (Nat.le_refl _)⟩
    · cases hover.ownCycle

/-- **Every turn brings an order further**, and fewer turns are left for it. -/
theorem Trailing.step (h : Trailing start order before left session) (hs : Outset start)
    (hn : session.step? = some next) :
    ∃ left' < left, Trailing start order before left' next := by
  obtain ⟨⟨low, ended, found, hroute⟩, hmarked⟩ := h
  have hnext := hroute.step hs hn
  suffices hleft : ∃ left' < left, Marked order before left' next by
    obtain ⟨left', hlt, hleft⟩ := hleft
    exact ⟨left', hlt, ⟨low, ended, _, hnext⟩, hleft⟩
  obtain ⟨-, hless⟩ := descends_step hroute.orderPhase.stage hn
  cases hmarked with
  | given hsound hm hl => exact marked_begin hsound hroute.orderPhase.stage hm hl hn
  | @underway base job turns hc hm hl =>
    cases turns with
    | nil => cases hn
    | cons turn turns =>
      obtain rfl := Option.some.inj hn
      exact marked_takeTurn hroute hnext hc hm hl
  | ended hover hr hm hl =>
    obtain ⟨hover', hstore⟩ := hover.step hn
    refine ⟨next.rank, by omega, .ended hover' ?_ (hstore ▸ hm) (Nat.le_refl _)⟩
    obtain hsame | hanswered := hover.running_step hn
    · obtain ⟨result, ha⟩ | hr := hr
      · -- a caller that has its answer has no turn
        cases hover with
        | ending => cases ha
        | answered => cases hn
      · exact .inr (hsame.trans hr)
    · exact .inl hanswered

/-- An interrupt tells nothing of commands, only the first one is heard, and the caller goes on
waiting. -/
theorem Trailing.interrupt (h : Trailing start order before left session) :
    Trailing start order before left (session.put .interrupt).1 ∧
      (session.put .interrupt).1.caller = session.caller := by
  obtain ⟨⟨low, ended, found, hroute⟩, hmarked⟩ := h
  have hstage := hroute.orderPhase.stage
  have hrank := rank_interruptIf hstage true
  suffices hnext : Marked order before left (session.put .interrupt).1 ∧
      (session.put .interrupt).1.caller = session.caller from
    ⟨⟨⟨low, ended, found, hroute.interrupt⟩, hnext.1⟩, hnext.2⟩
  have hsilent (published : List Event) : marks (.interrupt :: published) = marks published :=
    marks_cons_of_not (by decide) published
  cases hmarked with
  | given hsound hm hl =>
    have hsignal : EventKind.interrupt ∈ signals := by decide
    rw [put_handling hsound.order _ _ hsignal (by decide) (by decide)]
    exact ⟨.given (hsound.note _) ((hsilent _).trans hm) hl, rfl⟩
  | @underway base job turns hc hm hl =>
    obtain ⟨hsound, hpaced⟩ := sound_paced_of_stage hstage
    change ((base.work job turns).put .interrupt).1.rank ≤ _ + 6 at hrank
    cases hheard : job.heard with
    | true =>
      rw [put_interrupt_again hsound.sound.order hheard]
      exact ⟨.underway hc ((hsilent _).trans hm) hl, rfl⟩
    | false =>
      -- the turn in which the interrupt is heard is the one that was left for it
      rw [put_interrupt_first hsound hheard (paced_hear hpaced hheard).1] at hrank ⊢
      rw [hheard] at hl
      exact ⟨.underway hc ((hsilent _).trans hm) (Nat.le_trans hrank hl), rfl⟩
  | ended hover hr hm hl =>
    obtain ⟨hover', hpublished⟩ := hover.interrupt
    obtain ⟨hcaller, hrunning, hsame⟩ := hover.interrupt_same
    refine ⟨.ended hover' ?_ (hpublished ▸ (hsilent _).trans hm) (hsame ▸ hl), hcaller⟩
    rw [hcaller, hrunning]
    exact hr

end Session

end TraceDebugger
