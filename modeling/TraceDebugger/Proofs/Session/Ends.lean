/-
Where commands end.

A command that nobody interrupts ends.  Before the end of the trace it moves the cursor on, one step
for every request that it makes; at the end it makes one request, and nothing changes.

* `Runs.requestsIn_askedFor` — a pursuit makes one request for every step that it passes;
* `Runs.cursor_of_remaining`, `Runs.reached_of_finished` — and comes to a later cursor, unless it
  begins at the end;
* `carryOut_ends` — so does a command, wherever the session has come to.
-/
import TraceDebugger.Proofs.Session.Race

namespace TraceDebugger

/-- The requests for steps among some events. -/
def requestsIn (events : List Event) : Nat := events.countP fun event => event.kind = .next

theorem requestsIn_append (first second : List Event) :
    requestsIn (first ++ second) = requestsIn first + requestsIn second := List.countP_append ..

theorem requestsIn_eq_zero {events : List Event} (h : ∀ event ∈ events, event.kind ≠ .next) :
    requestsIn events = 0 :=
  List.countP_eq_zero.mpr fun event he => by simpa using h event he

namespace Workbench

variable {bench reached : Workbench} {pursuit : Pursuit} {blocks : List (List Event)}
  {fault : Option Fault}

/-- No request is made while a step is processed. -/
theorem requestsIn_passage {events : List Event} (hp : bench.passage = .ok events) :
    requestsIn events = 0 := by
  refine requestsIn_eq_zero fun event he hk => ?_
  have hkind := kinds_of_passage hp event he
  rw [hk] at hkind
  exact absurd hkind (by decide)

/-- A pursuit makes one request for every step that it passes. -/
theorem Runs.requestsIn_askedFor (h : Runs bench pursuit blocks reached fault) :
    requestsIn (Session.askedFor blocks) = blocks.length := by
  have hblock {bench : Workbench} {events : List Event} (hp : bench.passage = .ok events)
      (rest : List (List Event)) : requestsIn (Session.askedFor (events :: rest))
        = requestsIn (Session.askedFor rest) + 1 := by
    have hone : requestsIn (.next :: events) = requestsIn events + 1 :=
      List.countP_cons_of_pos rfl
    show requestsIn ((.next :: events) ++ Session.askedFor rest) = _
    rw [requestsIn_append, hone, requestsIn_passage hp]
    omega
  induction h with
  | ended hp => rw [hblock hp]; rfl
  | failed hp => rw [hblock hp]; rfl
  | on hp _ _ ih => rw [hblock hp, ih]; rfl

/-- Before the end of the trace it comes to a later cursor. -/
theorem Runs.cursor_of_remaining (h : Runs bench pursuit blocks reached fault) (hb : bench.Poised)
    (hr : 0 < bench.recording.remaining) :
    0 < blocks.length ∧ reached.recording.cursor = bench.recording.cursor + blocks.length ∧
      reached.recording.cursor ≤ bench.recording.steps.length := by
  obtain ⟨-, -, hcursor⟩ := hb.advanceBy h.advanceBy
  have hlength := h.length_blocks hb
  have hpos := List.length_pos_iff.mpr h.blocks_ne_nil
  rw [Recording.remaining] at hr
  omega

/-- At the end it makes one request, and nothing changes. -/
theorem Runs.reached_of_finished (h : Runs bench pursuit blocks reached fault) (hb : bench.Poised)
    (hr : bench.recording.remaining = 0) : blocks.length = 1 ∧ reached = bench := by
  have hlength := h.length_blocks hb
  have hpos := List.length_pos_iff.mpr h.blocks_ne_nil
  have hsame := h.advanceBy.symm.trans (advanceBy_of_finished hb hr _)
  rw [Recording.remaining] at hr
  exact ⟨by omega, Except.ok.inj hsame⟩

end Workbench

namespace Session

variable {start : Workbench} {base : Base} {ticket : Ticket} {origin here session : Session}

/-- The requests for steps that a session has made since an earlier moment. -/
def requests (session here : Session) : Nat :=
  requestsIn (session.chronicle.drop here.chronicle.length)

theorem stage_steps {count : Nat} {last : Session} (hsteps : Steps count session last)
    (h : Stage session) : Stage last := by
  induction hsteps with
  | refl => exact h
  | cons hn _ ih => exact ih (descends_step h hn).1

/-- A session that has concluded without being stuck has settled with an answer. -/
theorem settle_of_conclude (h : Stage session) {result : Except Fault Reply}
    (hc : session.conclude.2 = ⟨some result, false⟩) :
    ∃ count, Steps count session session.settle ∧ session.settle.turns = [] ∧
      session.settle.caller = .answered result ∧ session.conclude.1 = session.settle.release := by
  obtain ⟨count, hsteps⟩ := exists_steps_runFor session.turnLimit session
  refine ⟨count, hsteps, ?_⟩
  have hstage : Stage session.settle := stage_steps hsteps h
  rw [conclude] at hc ⊢
  -- a session that settles without an answer is given up and counts as stuck
  cases ha : session.settle.answer? with
  | none =>
    rw [ha] at hc
    cases congrArg Outcome.stuck hc
  | some answer =>
    rw [ha] at hc
    obtain rfl : answer = result := Option.some.inj (congrArg Outcome.result hc)
    generalize session.settle = settled at hstage ha ⊢
    cases hstage with
    | answered => exact ⟨rfl, congrArg _ (Option.some.inj ha), rfl⟩
    | rest => cases ha
    | handling => cases ha
    | work => cases ha
    | ending => cases ha

/-- Steps in a row keep to what has been asked of a session. -/
theorem Onward.steps {count : Nat} {last : Session} (h : Onward origin session)
    (hsteps : Steps count session last) : Onward origin last := by
  induction hsteps with
  | refl => exact h
  | cons hn _ ih => exact ih (h.turn hn)

/-- An order that is carried out is something that has been asked of a session. -/
theorem At.onward_carryOut (hs : Outset start) (h : At start base ticket session)
    (ho : Onward origin session) (order : Order) : Onward origin (session.carryOut order).1 := by
  obtain ⟨-, -, -, -, -, -, -, houtcome, -⟩ := h.carryOut hs order
  have hgiven : Stage (session.give order.command order.event) :=
    (h.orderOnCourse_give order).orderPhase.stage
  obtain ⟨count, hsteps, -, hanswered, hrelease⟩ := settle_of_conclude hgiven houtcome
  have hidle : session.caller = .idle := by
    rw [h.eq_rest]
    rfl
  have hcarry : (session.carryOut order).1
      = (session.give order.command order.event).settle.release := hrelease
  rw [hcarry]
  exact ((ho.give hidle order).steps hsteps).release hanswered

/-- A session that has carried out some orders is on its way and waits for the next. -/
theorem Loaded.onward_obey (hl : Loaded origin) (hp : origin.Processes) (orders : List Order) :
    Onward origin (origin.obey orders) ∧ (origin.obey orders).caller = .idle ∧
      (origin.obey orders).store.tripwires = [] := by
  obtain ⟨start, base, ticket, hs, h, -, -⟩ := hl.outset hp
  have hall : ∀ {base ticket session}, At start base ticket session → Onward origin session →
      Onward origin (session.obey orders) := by
    induction orders with
    | nil => exact fun _ ho => ho
    | cons order orders ih =>
      intro base ticket session h ho
      obtain ⟨-, -, -, base', ticket', -, -, -, hnext, -⟩ := h.carryOut hs order
      exact ih hnext (h.onward_carryOut hs ho order)
  obtain ⟨⟨base', ticket', hreached⟩, -⟩ := At.obey hs orders h
  refine ⟨hall h .origin, ?_⟩
  rw [hreached.eq_rest]
  exact ⟨rfl, rfl⟩

/-- **Commands end.** Whatever has been asked of a session since it loaded a trace whose steps are
processed, an order that is given when none is pending and that nobody interrupts comes to its end
in finitely many turns.  Before the end of the trace it moves the cursor on, by one for every
request that it makes; at the end it makes one request, and nothing changes. -/
theorem carryOut_ends (hl : Loaded origin) (hp : origin.Processes) (ho : Onward origin here)
    (hi : here.caller = .idle) (hw : here.store.tripwires = []) (order : Order) :
    (∃ count last, Steps count (here.give order.command order.event) last ∧ last.turns = [] ∧
      last.caller = .answered (.ok (.flag true)) ∧
      here.carryOut order = (last.release, ⟨some (.ok (.flag true)), false⟩)) ∧
    here.cursor ≤ origin.traceLength ∧
    (here.cursor < origin.traceLength →
      here.cursor < (here.carryOut order).1.cursor ∧
      (here.carryOut order).1.cursor ≤ origin.traceLength ∧
      (here.carryOut order).1.requests here = (here.carryOut order).1.cursor - here.cursor) ∧
    (here.cursor = origin.traceLength →
      (here.carryOut order).1.requests here = 1 ∧
      (here.carryOut order).1.bench.slices = here.bench.slices) := by
  obtain ⟨start, base₀, ticket₀, hs, hat₀, -, hlength⟩ := hl.outset hp
  obtain ⟨plain, harms, hplain⟩ := ho.exists_arms hs hat₀
  obtain ⟨base₁, ticket₁, hrest⟩ := hplain.exists_at (harms.caller ▸ hi)
  obtain ⟨base, hat⟩ := harms.at_of_unwired hrest hw
  obtain ⟨pursuit, blocks, reached, base', ticket', -, hruns, houtcome, hnext, hleft⟩ :=
    hat.carryOut hs order
  -- what the order has published is the command, its pursuit and its end; only the pursuit asks
  have hpoised := hat.poised
  have hsteps : base.bench.recording.steps.length = origin.traceLength := by
    rw [hat.steps hs, hlength]
  have hcursor : here.cursor = base.bench.recording.cursor := by
    rw [hat.eq_rest]
    rfl
  have hcursor' : (here.carryOut order).1.cursor = reached.recording.cursor := by
    rw [hnext.eq_rest]
    exact congrArg (·.cursor) (Workbench.recording_congr hleft.core)
  have hrequests : (here.carryOut order).1.requests here = blocks.length := by
    have hfirst : requestsIn [order.event, .beginStep order.command] = 0 := by
      refine requestsIn_eq_zero fun event he => ?_
      rcases List.mem_cons.mp he with rfl | he
      · rw [order.event_kind]
        exact fun hk => by cases hk
      · obtain rfl := List.mem_singleton.mp he
        exact fun hk => by cases hk
    have hlast : requestsIn [.endStep order.command false] = 0 := rfl
    rw [requests, hnext.eq_rest, hat.eq_rest, drop_chronicle hleft.published, requestsIn_append,
      requestsIn_append, hruns.requestsIn_askedFor, hfirst, hlast, Nat.zero_add, Nat.add_zero]
  have hle := base.bench.recording.cursor_le
  refine ⟨?_, by rw [hcursor, ← hsteps]; exact hle, fun hlt => ?_, fun heq => ?_⟩
  · -- fuel is not what ends it: the session has settled with an answer
    have hgiven : Stage (here.give order.command order.event) :=
      (hat.orderOnCourse_give order).orderPhase.stage
    obtain ⟨count, hall, hnil, hanswered, hrelease⟩ := settle_of_conclude hgiven houtcome
    exact ⟨count, _, hall, hnil, hanswered, Prod.ext hrelease houtcome⟩
  · have hremaining : 0 < base.bench.recording.remaining := by
      rw [Recording.remaining]
      omega
    obtain ⟨hpos, hreached, hlast⟩ := hruns.cursor_of_remaining hpoised hremaining
    omega
  · have hremaining : base.bench.recording.remaining = 0 := by
      rw [Recording.remaining]
      omega
    obtain ⟨hone, rfl⟩ := hruns.reached_of_finished hpoised hremaining
    refine ⟨hrequests.trans hone, ?_⟩
    rw [hnext.eq_rest, hat.eq_rest]
    exact Workbench.slices_congr hleft.core

/-- The session with the brief trace after a single advance. -/
def briefAdvanced : Session := (brief.carryOut .advance).1

theorem brief_carryOut_ends :
    Loaded brief ∧ brief.Processes ∧ Onward brief briefAdvanced ∧ briefAdvanced.caller = .idle ∧
      briefAdvanced.store.tripwires = [] ∧ briefAdvanced.cursor < brief.traceLength ∧
      briefAdvanced.cursor < (briefAdvanced.carryOut .stepNext).1.cursor ∧
      (briefAdvanced.carryOut .stepNext).1.cursor ≤ brief.traceLength ∧
      (briefAdvanced.carryOut .stepNext).1.requests briefAdvanced
        = (briefAdvanced.carryOut .stepNext).1.cursor - briefAdvanced.cursor := by
  have hwired : brief.store.tripwires = [] := by decide +kernel
  -- the first command leads to a session that is still on its way
  obtain ⟨⟨count, last, hsteps, -, hanswered, hcarry⟩, -⟩ :=
    carryOut_ends loaded_brief processes_brief .origin loaded_brief.idle hwired .advance
  have hlast : briefAdvanced = last.release := congrArg Prod.fst hcarry
  have honward : Onward brief briefAdvanced := by
    rw [hlast]
    exact ((Onward.origin.give loaded_brief.idle .advance).steps hsteps).release hanswered
  have hidle : briefAdvanced.caller = .idle := by rw [hlast, release_of_answered hanswered]
  have hwired' : briefAdvanced.store.tripwires = [] := by decide +kernel
  have hlt : briefAdvanced.cursor < brief.traceLength := by decide +kernel
  obtain ⟨-, -, hmoves, -⟩ :=
    carryOut_ends loaded_brief processes_brief honward hidle hwired' .stepNext
  exact ⟨loaded_brief, processes_brief, honward, hidle, hwired', hlt, hmoves hlt⟩

end Session

end TraceDebugger
