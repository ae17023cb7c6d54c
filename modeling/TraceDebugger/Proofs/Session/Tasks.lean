/-
A session that tasks share.

Tasks call the commands of one session and interrupt it, whenever they like.  The call that comes
first is served and the others are refused until it is over, so the commands run one after the
other, each in a cycle of its own.

* `Shared` — a session, the call that waits and the calls that are over;
* `Shared.run` — what becomes of it while tasks act and turns are taken, in any order;
* `InTurn`, `InTurn.run` — the session rests or brings the call that waits forward, and what has
  been published tells of the calls in turn;
* `calls_serialized` — one cycle at a time, every call that is not refused gets one, and refusing a
  call changes nothing.
-/
import TraceDebugger.Proofs.Session.Trail

namespace TraceDebugger

/-- What tasks do, and the turns between. -/
inductive Act where
  /-- A task calls a command. -/
  | call (order : Order)
  /-- A task interrupts. -/
  | interrupt
  /-- The next turn is taken. -/
  | turn

/-- A session that tasks share. -/
structure Shared where
  session : Session
  /-- The call that waits. -/
  pending : Option Order := none
  /-- The calls that waited and are over, with their answers. -/
  served : List (Order × Except Fault Reply) := []
  /-- The calls that were answered at once. -/
  refused : List (Order × Except Fault Reply) := []

namespace Shared

/-- A task calls.  If it is answered at once, whoever waits goes on waiting; else it waits
itself. -/
def call (order : Order) (shared : Shared) : Shared :=
  let asked := { shared.session with caller := .idle }.give order.command order.event
  match asked.answer? with
  | some answer =>
    { shared with
      session := { asked with caller := shared.session.caller }
      refused := shared.refused ++ [(order, answer)] }
  | none => { shared with session := asked, pending := some order }

/-- The task whose call is over goes away with its answer. -/
def collect (shared : Shared) : Shared :=
  match shared.pending, shared.session.answer? with
  | some order, some answer =>
    { shared with
      session := shared.session.release
      pending := none
      served := shared.served ++ [(order, answer)] }
  | _, _ => shared

theorem collect_none {shared : Shared} (h : shared.session.answer? = none) :
    shared.collect = shared := by
  rw [collect, h]
  cases shared.pending <;> rfl

theorem collect_some {shared : Shared} {order : Order} {answer : Except Fault Reply}
    (hp : shared.pending = some order) (h : shared.session.answer? = some answer) :
    shared.collect = { shared with
      session := shared.session.release, pending := none
      served := shared.served ++ [(order, answer)] } := by
  rw [collect, hp, h]

def interrupt (shared : Shared) : Shared :=
  { shared with session := (shared.session.put .interrupt).1 }

/-- A turn is taken, if there is one. -/
def turn (shared : Shared) : Shared :=
  match shared.session.step? with
  | some next => { shared with session := next }.collect
  | none => shared

def act (shared : Shared) : Act → Shared
  | .call order => shared.call order
  | .interrupt => shared.interrupt
  | .turn => shared.turn

/-- What becomes of a shared session. -/
def run (shared : Shared) (acts : List Act) : Shared := acts.foldl act shared

/-- It is noted that a call was refused. -/
def refuse (shared : Shared) (order : Order) (fault : Fault) : Shared :=
  { shared with refused := shared.refused ++ [(order, .error fault)] }

/-- Everything apart from the calls that were refused. -/
def unrefused (shared : Shared) : Shared := { shared with refused := [] }

end Shared

def Act.isTurn : Act → Bool
  | turn => true
  | _ => false

/-- The turns among some acts. -/
def turnsIn (acts : List Act) : Nat := acts.countP Act.isTurn

/-- What is published of a call that is served: that it was given, the beginning of its cycle and
the end. -/
def Order.trail (order : Order) (interrupted : Bool) : List Event :=
  [order.event, .beginStep order.command, .endStep order.command interrupted]

/-- What is published of some calls, given with whether they were interrupted. -/
def trails (calls : List (Order × Bool)) : List Event :=
  calls.flatMap fun call => call.1.trail call.2

/-- The cycles that run. -/
def Session.cycles (session : Session) : List Cycle :=
  session.ownCycle.toList ++ session.directCycle.toList

/-- What tasks get of a session that they share. -/
structure Serialized (origin : Session) (shared : Shared) : Prop where
  /-- At most one cycle runs. -/
  single : shared.session.cycles.length ≤ 1
  /-- Every call that was served has had one cycle, of its own type, and returned the result of that
  cycle; of the call that waits, a part of such a cycle has been published. -/
  account : ∃ (calls : List (Order × Bool)) (underway : List Event),
    shared.served = calls.map (fun call => (call.1, .ok (.flag !call.2))) ∧
    marks shared.session.chronicle = marks origin.chronicle ++ trails calls ++ underway ∧
    (shared.pending = none → underway = []) ∧
    ∀ order, shared.pending = some order →
      underway ≠ [] ∧ ∃ interrupted, underway <+: order.trail interrupted
  /-- A call is refused while another one waits; that is noted, and nothing changes. -/
  refusal : ∀ running, shared.pending = some running → ∀ order, shared.call order
    = shared.refuse order (.commandInProgress order.command.name running.command.name)
  /-- Nothing changes later on either. -/
  unaffected : ∀ order fault acts,
    ((shared.refuse order fault).run acts).unrefused = (shared.run acts).unrefused
  /-- Any other call is not refused. -/
  accepted : shared.pending = none → ∀ order,
    (shared.call order).pending = some order ∧ (shared.call order).refused = shared.refused
  /-- It is served within so many turns, whatever tasks do in the meantime. -/
  returns : ∀ order, shared.pending = some order → ∃ bound, ∀ acts, bound ≤ turnsIn acts →
    ∃ interrupted, shared.served ++ [(order, .ok (.flag !interrupted))] <+: (shared.run acts).served

/-! ### One call -/

namespace Session

variable {start : Workbench} {order : Order} {before : List Event} {left : Nat}
  {session next : Session} {base : Base} {ticket : Ticket}

theorem answer?_congr (h : next.caller = session.caller) : next.answer? = session.answer? := by
  rw [answer?, answer?, h]

theorem refusal?_of_running {running command : Command}
    (hl : session.bench.recording.loaded = true)
    (hd : ∀ fault, session.dispatcher ≠ .crashed fault) (hr : session.running = some running) :
    session.refusal? command = some (.commandInProgress command.name running.name) := by
  have hbusy : session.busyWith = some running := by rw [busyWith, hr]; rfl
  rw [refusal?, if_pos hl, hbusy]
  cases hdispatcher : session.dispatcher with
  | crashed fault => exact absurd hdispatcher (hd fault)
  | _ => rfl

/-- While a call waits, another one is refused. -/
theorem Trailing.refusal? (h : Trailing start order before left session)
    (ha : session.answer? = none) (command : Command) :
    session.refusal? command = some (.commandInProgress command.name order.command.name) := by
  obtain ⟨⟨low, ended, found, hroute⟩, hmarked⟩ := h
  -- by how far the command is; once it has ended, the caller would have its answer
  cases hmarked with
  | given hsound => exact refusal?_of_running hsound.loaded (fun _ hd => by cases hd) rfl
  | underway hc =>
    obtain ⟨hsound, -⟩ := sound_paced_of_stage hroute.orderPhase.stage
    exact refusal?_of_running hsound.sound.loaded (fun _ hd => by cases hd) (congrArg some hc)
  | ended hover hr =>
    obtain ⟨result, hanswered⟩ | hr := hr
    · rw [answer?, hanswered] at ha
      cases ha
    · cases hover with
      | ending hstanding =>
        exact refusal?_of_running hstanding.sound.loaded (fun _ hd => by cases hd) hr
      | answered => cases ha

/-- A call that waits has a turn to come. -/
theorem Trailing.exists_step (h : Trailing start order before left session)
    (ha : session.answer? = none) : ∃ next, session.step? = some next := by
  obtain ⟨⟨low, ended, found, hroute⟩, -⟩ := h
  cases hn : session.step? with
  | some next => exact ⟨next, rfl⟩
  | none =>
    have hnil : session.turns = [] := by
      rw [step?] at hn
      split at hn
      · assumption
      · cases hn
    obtain ⟨-, hturns⟩ | ⟨interrupted, -, -, hover⟩ := hroute.orderPhase.cases_end
    · exact absurd hnil hturns
    · rw [answer?, hover.answered_of_nil hnil] at ha
      cases ha

/-- A call that has its answer has had its cycle, and the session rests. -/
theorem Trailing.release (h : Trailing start order before left session)
    {answer : Except Fault Reply} (ha : session.answer? = some answer) :
    ∃ interrupted base ticket, answer = .ok (.flag !interrupted) ∧
      At start base ticket session.release ∧
      marks session.release.store.published = (order.trail interrupted).reverse ++ before := by
  obtain ⟨⟨low, ended, found, hroute⟩, hmarked⟩ := h
  cases hmarked with
  | given => cases ha
  | underway => cases ha
  | @ended _ interrupted hover hr hm =>
    cases hover with
    | ending => cases ha
    | @answered base ticket hstanding hidle =>
      obtain rfl := Option.some.inj ha
      exact ⟨interrupted, base, ticket, rfl, ⟨rfl, hstanding, hidle, hroute.course⟩, hm⟩

/-- What has been published of an order on its way. -/
theorem Trailing.exists_underway (h : Trailing start order before left session) :
    ∃ interrupted underway, marks session.store.published = underway.reverse ++ before ∧
      underway ≠ [] ∧ underway <+: order.trail interrupted := by
  obtain ⟨-, hmarked⟩ := h
  cases hmarked with
  | given _ hm => exact ⟨false, [order.event], hm, List.cons_ne_nil _ _, ⟨_, rfl⟩⟩
  | underway _ hm =>
    exact ⟨false, [order.event, .beginStep order.command], hm, List.cons_ne_nil _ _, ⟨_, rfl⟩⟩
  | @ended _ interrupted _ _ hm =>
    exact ⟨interrupted, order.trail interrupted, hm, List.cons_ne_nil _ _, ⟨[], rfl⟩⟩

/-- Cycles run in the lane of the dispatcher only. -/
theorem cycles_length_le (h : Stage session) : session.cycles.length ≤ 1 := by
  cases h with
  | work => exact Nat.le_refl _
  | _ => exact Nat.zero_le _

end Session

/-! ### Calls in turn -/

/-- A session rests, or brings the call that waits forward. -/
inductive Serving (start : Workbench) (before : List Event) :
    Option Order → Nat → Session → Prop
  | resting {session : Session} {base : Base} {ticket : Ticket}
      (h : Session.At start base ticket session)
      (hm : marks session.store.published = before) : Serving start before none 0 session
  | busy {session : Session} {order : Order} {left : Nat}
      (h : Session.Trailing start order before left session) (ha : session.answer? = none) :
      Serving start before (some order) left session

/-- Some calls have been served in turn, and so many turns are left at most for the one that
waits. -/
structure InTurn (start : Workbench) (before : List Event) (calls : List (Order × Bool))
    (left : Nat) (shared : Shared) : Prop where
  served : shared.served = calls.map fun call => (call.1, .ok (.flag !call.2))
  serving : Serving start ((trails calls).reverse ++ before) shared.pending left shared.session

theorem Serving.stage {start : Workbench} {before : List Event} {pending : Option Order}
    {left : Nat} {session : Session} (h : Serving start before pending left session) :
    Stage session := by
  cases h with
  | resting hat => exact hat.stage
  | busy htrailing =>
    obtain ⟨⟨low, ended, found, hroute⟩, -⟩ := htrailing
    exact hroute.orderPhase.stage

theorem Serving.exists_underway {start : Workbench} {before : List Event} {pending : Option Order}
    {left : Nat} {session : Session} (h : Serving start before pending left session) :
    ∃ underway, marks session.store.published = underway.reverse ++ before ∧
      (pending = none → underway = []) ∧ ∀ order, pending = some order →
        underway ≠ [] ∧ ∃ interrupted, underway <+: order.trail interrupted := by
  cases h with
  | resting hat hm => exact ⟨[], hm, fun _ => rfl, fun order hp => by cases hp⟩
  | busy htrailing =>
    obtain ⟨interrupted, underway, hm, hsome, hprefix⟩ := htrailing.exists_underway
    refine ⟨underway, hm, (fun hp => by cases hp), fun order hp => ?_⟩
    obtain rfl := Option.some.inj hp
    exact ⟨hsome, interrupted, hprefix⟩

namespace InTurn

open Session (Outset At Trailing)

variable {start : Workbench} {before : List Event} {calls : List (Order × Bool)} {left : Nat}
  {shared : Shared} {order running : Order}

/-- A call is accepted when no other one waits. -/
theorem call_free (h : InTurn start before calls left shared) (hp : shared.pending = none)
    (order : Order) :
    (∃ left', InTurn start before calls left' (shared.call order)) ∧
      (shared.call order).pending = some order ∧ (shared.call order).refused = shared.refused := by
  obtain ⟨hserved, hserving⟩ := h
  rw [hp] at hserving
  cases hserving with
  | @resting _ base ticket hat hm =>
    obtain ⟨left', htrailing, hgiven⟩ := hat.trailing_give order
    have hidle : { shared.session with caller := CallerStatus.idle } = shared.session := by
      rw [← hat.caller]
    have hcall : shared.call order = { shared with
        session := shared.session.give order.command order.event, pending := some order } := by
      simp only [Shared.call, hidle, hgiven]
    rw [hcall]
    exact ⟨⟨left', hserved, .busy (hm ▸ htrailing) hgiven⟩, rfl, rfl⟩

/-- A call is refused while another one waits. -/
theorem call_busy (h : InTurn start before calls left shared) (hp : shared.pending = some running)
    (order : Order) : shared.call order
      = shared.refuse order (.commandInProgress order.command.name running.command.name) := by
  obtain ⟨-, hserving⟩ := h
  rw [hp] at hserving
  cases hserving with
  | busy htrailing ha =>
    have hrefusal : ({ shared.session with caller := .idle } : Session).refusal? order.command
        = some (.commandInProgress order.command.name running.command.name) :=
      htrailing.refusal? ha order.command
    rw [Shared.call, Session.give, hrefusal]
    rfl

theorem refuse (h : InTurn start before calls left shared) (order : Order) (fault : Fault) :
    InTurn start before calls left (shared.refuse order fault) := ⟨h.served, h.serving⟩

theorem interrupt (h : InTurn start before calls left shared) :
    InTurn start before calls left shared.interrupt := by
  obtain ⟨session, pending, served, refused⟩ := shared
  obtain ⟨hserved, hserving⟩ := h
  refine ⟨hserved, ?_⟩
  cases hserving with
  | resting hat hm =>
    obtain ⟨base', hat', hpublished⟩ := hat.interrupt
    refine .resting hat' ((congrArg marks hpublished).trans ?_)
    exact (marks_cons_of_not (by decide) _).trans hm
  | busy htrailing ha =>
    obtain ⟨htrailing', hcaller⟩ := htrailing.interrupt
    exact .busy htrailing' ((Session.answer?_congr hcaller).trans ha)

/-- A session that rests has no turn. -/
theorem turn_free (h : InTurn start before calls left shared) (hp : shared.pending = none) :
    shared.turn = shared := by
  obtain ⟨-, hserving⟩ := h
  rw [hp] at hserving
  cases hserving with
  | resting hat =>
    rw [Shared.turn, Session.step?, hat.turns]

/-- A turn brings the call that waits forward, or the call is over. -/
theorem turn_busy (h : InTurn start before calls left shared) (hs : Outset start)
    (hp : shared.pending = some order) :
    (∃ left' < left, InTurn start before calls left' shared.turn ∧
      shared.turn.pending = some order ∧ shared.turn.served = shared.served) ∨
    ∃ interrupted, InTurn start before (calls ++ [(order, interrupted)]) 0 shared.turn ∧
      shared.turn.served = shared.served ++ [(order, .ok (.flag !interrupted))] := by
  obtain ⟨hserved, hserving⟩ := h
  rw [hp] at hserving
  cases hserving with
  | busy htrailing ha =>
    obtain ⟨next, hn⟩ := htrailing.exists_step ha
    obtain ⟨left', hlt, hnext⟩ := htrailing.step hs hn
    have hturn : shared.turn = { shared with session := next }.collect := by
      rw [Shared.turn, hn]
    rw [hturn]
    -- a call is over when its caller has the answer, which is collected in the same turn
    cases hanswer : next.answer? with
    | none =>
      rw [Shared.collect_none hanswer]
      exact .inl ⟨left', hlt, ⟨hserved, hp ▸ .busy hnext hanswer⟩, hp, rfl⟩
    | some answer =>
      have hcollect := @Shared.collect_some { shared with session := next } order answer hp hanswer
      rw [hcollect]
      obtain ⟨interrupted, base, ticket, rfl, hat, hm⟩ := hnext.release hanswer
      refine .inr ⟨interrupted, ⟨?_, .resting hat ?_⟩, rfl⟩
      · rw [hserved, List.map_append]
        rfl
      · rw [hm, trails, trails, List.flatMap_append, List.reverse_append, List.append_assoc]
        rfl

/-- A call that waits has a turn left. -/
theorem left_pos (h : InTurn start before calls left shared) (hs : Outset start)
    (hp : shared.pending = some order) : 0 < left := by
  obtain ⟨-, hserving⟩ := h
  rw [hp] at hserving
  cases hserving with
  | busy htrailing ha =>
    obtain ⟨next, hn⟩ := htrailing.exists_step ha
    obtain ⟨left', hlt, -⟩ := htrailing.step hs hn
    omega

/-- The calls are served in turn, whatever tasks do. -/
theorem act (h : InTurn start before calls left shared) (hs : Outset start) (act : Act) :
    ∃ calls' left', InTurn start before calls' left' (shared.act act) := by
  -- while a call waits, other calls are refused and turns bring it forward
  cases hp : shared.pending with
  | none =>
    cases act with
    | call order =>
      obtain ⟨⟨left', hcall⟩, -⟩ := h.call_free hp order
      exact ⟨calls, left', hcall⟩
    | interrupt => exact ⟨calls, left, h.interrupt⟩
    | turn =>
      rw [Shared.act, h.turn_free hp]
      exact ⟨calls, left, h⟩
  | some running =>
    cases act with
    | call order =>
      rw [Shared.act, h.call_busy hp order]
      exact ⟨calls, left, h.refuse order _⟩
    | interrupt => exact ⟨calls, left, h.interrupt⟩
    | turn =>
      obtain ⟨left', -, hturn, -⟩ | ⟨interrupted, hturn, -⟩ := h.turn_busy hs hp
      · exact ⟨calls, left', hturn⟩
      · exact ⟨_, 0, hturn⟩

theorem run (hs : Outset start) (acts : List Act) : ∀ {calls left shared},
    InTurn start before calls left shared →
      ∃ calls' left', InTurn start before calls' left' (shared.run acts) := by
  induction acts with
  | nil => exact fun h => ⟨_, _, h⟩
  | cons act acts ih =>
    intro calls left shared h
    obtain ⟨calls', left', hact⟩ := h.act hs act
    exact ih hact

end InTurn

namespace Shared

variable {shared : Shared}

/-- A call that was served stays served. -/
theorem served_act (shared : Shared) (act : Act) : shared.served <+: (shared.act act).served := by
  cases act with
  | call order =>
    rw [Shared.act, call]
    dsimp only
    split <;> exact List.prefix_refl _
  | interrupt => exact List.prefix_refl _
  | turn =>
    rw [Shared.act, turn]
    split
    · rw [collect]
      split
      · exact List.prefix_append _ _
      · exact List.prefix_refl _
    · exact List.prefix_refl _

theorem served_run (acts : List Act) :
    ∀ shared : Shared, shared.served <+: (shared.run acts).served := by
  induction acts with
  | nil => exact fun shared => List.prefix_refl _
  | cons act acts ih => exact fun shared => (shared.served_act act).trans (ih (shared.act act))

/-- What tasks do does not depend on the calls that were refused. -/
theorem unrefused_act (shared : Shared) (act : Act) :
    (shared.act act).unrefused = (shared.unrefused.act act).unrefused := by
  cases act with
  | call order =>
    rw [Shared.act, Shared.act, call, call]
    dsimp only [unrefused]
    split <;> rfl
  | interrupt => rfl
  | turn =>
    rw [Shared.act, Shared.act, turn, turn]
    dsimp only [unrefused]
    split
    · rw [collect, collect]
      dsimp only
      split <;> rfl
    · rfl

theorem unrefused_run (acts : List Act) : ∀ {first second : Shared},
    first.unrefused = second.unrefused →
      (first.run acts).unrefused = (second.run acts).unrefused := by
  induction acts with
  | nil => exact fun h => h
  | cons act acts ih =>
    intro first second h
    refine ih ?_
    rw [unrefused_act, h, ← unrefused_act]

/-- The call that waits is over after so many turns as are left for it. -/
theorem returns_of_inTurn {start : Workbench} {before : List Event} (hs : Session.Outset start)
    {order : Order} (acts : List Act) : ∀ {calls left shared},
    InTurn start before calls left shared → shared.pending = some order → left ≤ turnsIn acts →
      ∃ interrupted,
        shared.served ++ [(order, .ok (.flag !interrupted))] <+: (shared.run acts).served := by
  -- on what the tasks do; only turns use up those that are left for the call
  induction acts with
  | nil => exact fun h hp hl => absurd (h.left_pos hs hp) (Nat.not_lt.mpr hl)
  | cons act acts ih =>
    intro calls left shared h hp hl
    cases act with
    | call other =>
      have hcall : shared.act (.call other) = shared.refuse other _ := h.call_busy hp other
      show ∃ interrupted, _ <+: ((shared.act (.call other)).run acts).served
      rw [hcall]
      exact ih (h.refuse other _) hp hl
    | interrupt => exact ih h.interrupt hp hl
    | turn =>
      have hone : turnsIn (.turn :: acts) = turnsIn acts + 1 := List.countP_cons_of_pos rfl
      show ∃ interrupted, _ <+: (shared.turn.run acts).served
      obtain ⟨left', hlt, hturn, hpending, hserved⟩ | ⟨interrupted, -, hserved⟩ :=
        h.turn_busy hs hp
      · rw [← hserved]
        exact ih hturn hpending (by omega)
      · exact ⟨interrupted, hserved ▸ served_run acts shared.turn⟩

end Shared

namespace Session

/-- **Calls are served one after the other.**  Whatever tasks do with a session that has loaded a
trace whose steps are processed, at most one cycle runs at a time; a call that comes while another
one waits is refused and changes nothing; any other call has exactly one cycle, of its own type, and
returns the result of that cycle within a bounded number of turns. -/
theorem calls_serialized {origin : Session} (hl : Loaded origin) (hp : origin.Processes)
    (acts : List Act) : Serialized origin (Shared.run { session := origin } acts) := by
  obtain ⟨start, base, ticket, hs, hat, -⟩ := hl.outset hp
  have hcycleBegun : InTurn start (marks origin.store.published) [] 0 { session := origin } :=
    ⟨rfl, .resting hat rfl⟩
  obtain ⟨calls, left, h⟩ := hcycleBegun.run hs acts
  generalize Shared.run { session := origin } acts = shared at h
  obtain ⟨underway, hmarks, hnone, hsome⟩ := h.serving.exists_underway
  refine ⟨cycles_length_le h.serving.stage, ⟨calls, underway, h.served, ?_, hnone, hsome⟩,
    fun running hpending order => h.call_busy hpending order,
    fun order fault acts => Shared.unrefused_run acts rfl,
    fun hpending order => (h.call_free hpending order).2,
    fun order hpending => ⟨left, fun acts hle =>
      Shared.returns_of_inTurn hs acts h hpending hle⟩⟩
  -- what has been published is kept with the latest first
  rw [chronicle, chronicle, marks_reverse, marks_reverse, hmarks]
  simp

/-- Two tasks call, the second one while the call of the first one waits, and turns are taken until
the first call is over. -/
def twoCalls : List Act := .call .advance :: .turn :: .call .stepOut :: List.replicate 8 .turn

theorem twoCalls_serialized :
    Loaded brief ∧ brief.Processes ∧ Serialized brief (Shared.run { session := brief } twoCalls) ∧
      (Shared.run { session := brief } twoCalls).served.length = 1 ∧
      (Shared.run { session := brief } twoCalls).refused.length = 1 :=
  ⟨loaded_brief, processes_brief, calls_serialized loaded_brief processes_brief twoCalls,
    by decide +kernel, by decide +kernel⟩

end Session

end TraceDebugger
