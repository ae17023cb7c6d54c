/-
All commands do the same.

Whatever commands are given, the state that a session derives from its trace depends on the cursor
alone: it is the state after as many single advances.

* `At.core_eq` — sessions of one outset with the same cursor have derived the same state;
* `At.exists_both` — and an order passes the same steps in them;
* `At.core_viewAt` — wherever a session is on its way, it has what single advances lead to;
* `obey_confluent` — any orders lead to the state of as many advances as the cursor tells.
-/
import TraceDebugger.Proofs.Session.Orders

namespace TraceDebugger.Session

variable {start : Workbench} {base base' : Base} {ticket ticket' : Ticket} {session here : Session}

/-- Sessions that are equally far from one outset have derived the same state. -/
theorem At.core_eq (h : At start base ticket session) (h' : At start base' ticket' here)
    (hc : session.cursor = here.cursor) : session.bench.core = here.bench.core := by
  rw [h.eq_rest, h'.eq_rest] at hc ⊢
  exact Workbench.OnCourse.core_eq h.reached h'.reached hc

/-- An order passes the same steps in both. -/
theorem At.exists_both (hs : Outset start) (h : At start base ticket session)
    (h' : At start base' ticket' here) (hc : session.cursor = here.cursor) (order : Order) :
    ∃ blocks reached reached' base₁ ticket₁ base₂ ticket₂,
      (session.carryOut order).2 = (here.carryOut order).2 ∧
      At start base₁ ticket₁ (session.carryOut order).1 ∧
      At start base₂ ticket₂ (here.carryOut order).1 ∧
      (session.carryOut order).1.bench.core = (here.carryOut order).1.bench.core ∧
      Left base (.ready ticket₁) reached
        ([order.event, .beginStep order.command] ++ askedFor blocks
          ++ [.endStep order.command false]) base₁ ∧
      Left base' (.ready ticket₂) reached'
        ([order.event, .beginStep order.command] ++ askedFor blocks
          ++ [.endStep order.command false]) base₂ := by
  obtain ⟨pursuit, blocks, reached, base₁, ticket₁, hbegin, hruns, houtcome, hnext, hleft⟩ :=
    h.carryOut hs order
  obtain ⟨pursuit', blocks', reached', base₂, ticket₂, hbegin', hruns', houtcome', hnext',
    hleft'⟩ := h'.carryOut hs order
  have hcore : base.bench.core = base'.bench.core := by
    have hsame := h.core_eq h' hc
    rwa [h.bench_eq, h'.bench_eq] at hsame
  -- both pursue the same, and come to the same
  rw [Workbench.begin_congr hcore, hbegin'] at hbegin
  obtain rfl := Except.ok.inj hbegin
  obtain ⟨rfl, hreached, -⟩ := hruns'.eq_of_core hcore hruns
  refine ⟨_, _, _, _, _, _, _, houtcome.trans houtcome'.symm, hnext, hnext', ?_, hleft, hleft'⟩
  rw [hnext.bench_eq, hnext'.bench_eq]
  exact hleft.core.trans (hreached.trans hleft'.core.symm)

/-- The workbench of a session at a position of its trace. -/
def viewAt (session : Session) (position : Nat) : Workbench :=
  (session.obey (List.replicate position .advance)).bench

section There

-- a workbench on the course of a session that is on its way from the outset of another one
variable (hs : Outset start) (h : At start base ticket session) (h' : At start base' ticket' here)
  {count : Nat} {there : Workbench} (hthere : base'.bench.advanceBy count = .ok there)

include hs h h' hthere

theorem At.steps_eq : there.recording.steps = session.bench.recording.steps := by
  obtain ⟨-, hsteps, -⟩ := h'.poised.advanceBy hthere
  rw [hsteps, h'.steps hs, ← h.steps hs, h.eq_rest]
  rfl

theorem At.length_eq : there.recording.steps.length = session.traceLength :=
  congrArg List.length (h.steps_eq hs h' hthere)

/-- It is what the session has at its position. -/
theorem At.core_viewAt (hc : session.cursor = 0) :
    (session.viewAt there.recording.cursor).core = there.core := by
  obtain ⟨reached, hreached, hcore⟩ := h'.advanceBy hthere
  obtain ⟨⟨base'', ticket'', hview⟩, -⟩ :=
    At.obey hs (List.replicate there.recording.cursor .advance) h
  have hle := there.recording.cursor_le
  rw [h.length_eq hs h' hthere, h.eq_rest] at hle
  have hlength : (base.rest (.ready ticket)).traceLength = start.recording.steps.length :=
    congrArg List.length (h.steps hs)
  have hcursor := At.cursor_obey_advances hs there.recording.cursor h
  rw [hc, Nat.zero_add, Nat.min_eq_left (hlength ▸ hle), hview.eq_rest] at hcursor
  have hcursor : base''.bench.recording.cursor = there.recording.cursor := hcursor
  obtain ⟨reached', hreached', hcore'⟩ := hview.reached
  rw [hcursor, hreached] at hreached'
  obtain rfl := Except.ok.inj hreached'
  rw [viewAt, hview.eq_rest]
  exact hcore'.symm.trans hcore

end There

/-- **Commands are confluent.** Whatever orders are given after a trace is loaded whose steps can
all be processed, each is carried out, the state derived from it is that of as many single advances
as the cursor tells, and other orders that lead to the same cursor lead to the same state. -/
theorem obey_confluent (hl : Loaded session) (hp : session.Processes) (orders : List Order) :
    (∀ outcome ∈ session.outcomes orders, outcome = ⟨some (.ok (.flag true)), false⟩) ∧
      (session.obey orders).bench.slices
        = (session.obey (List.replicate (session.obey orders).cursor .advance)).bench.slices ∧
      ∀ others, (session.obey others).cursor = (session.obey orders).cursor →
        (session.obey others).bench.slices = (session.obey orders).bench.slices := by
  obtain ⟨start, base, ticket, hs, h, hcursor, -⟩ := hl.outset hp
  obtain ⟨⟨reached, place, hreached⟩, houtcomes⟩ := At.obey hs orders h
  -- the session that was reached is on the course, no advance away from its own place
  have hzero : reached.bench.advanceBy 0 = .ok reached.bench := rfl
  have hview := h.core_viewAt hs hreached hzero hcursor
  refine ⟨houtcomes, ?_, ?_⟩
  · rw [hreached.eq_rest]
    exact (Workbench.slices_congr hview).symm
  · intro others hc
    obtain ⟨⟨_, _, hother⟩, -⟩ := At.obey hs others h
    exact Workbench.slices_congr (hother.core_eq hreached hc)

theorem brief_obey_confluent :
    Loaded brief ∧ brief.Processes ∧
      (brief.obey [.stepInto, .stepNext]).bench.slices
        = (brief.obey (List.replicate (brief.obey [.stepInto, .stepNext]).cursor
            .advance)).bench.slices :=
  ⟨loaded_brief, processes_brief,
    (obey_confluent loaded_brief processes_brief [.stepInto, .stepNext]).2.1⟩

end TraceDebugger.Session
