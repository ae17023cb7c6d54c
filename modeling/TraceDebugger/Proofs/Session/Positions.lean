/-
Positions of a trace.

A session is what it has come to: whatever led it to a position, its state is the view at that
position, and the step there takes one view to the next.

* `exists_passage` — the step at a position takes its view to the view after it;
* `At.slices_eq` — the state of a session is that of the view at its cursor.
-/
import TraceDebugger.Proofs.Session.Confluence

namespace TraceDebugger.Session

variable {start : Workbench} {base base' : Base} {ticket ticket' : Ticket} {session here : Session}

/-- The step at a position takes the view there to the next one. -/
structure Passes (session : Session) (position : Nat) (step : Step) (events : List Event) :
    Prop where
  isStep : session.bench.recording.steps[position]? = some step
  poised : (session.viewAt position).Poised
  reads : (session.viewAt position).step = some step
  remaining : (session.viewAt position).recording.remaining = session.traceLength - position
  passage : (session.viewAt position).passage = .ok events
  next : (session.viewAt (position + 1)).core = ((session.viewAt position).past events).core

theorem At.exists_passage (hs : Outset start) (h : At start base ticket session)
    (hc : session.cursor = 0) {position : Nat} (hlt : position < session.traceLength) :
    ∃ step events, session.Passes position step events := by
  have hcursor : base.bench.recording.cursor = 0 := h.cursor_eq.symm.trans hc
  obtain ⟨there, hthere⟩ := h.processable hs position
  obtain ⟨next, hnext⟩ := h.processable hs (position + 1)
  have hlength := h.length_eq hs h (Workbench.advanceBy_zero _)
  -- the positions are those of the workbenches there
  have hposition : there.recording.cursor = position := by
    rw [(h.poised.advanceBy hthere).2.2]
    omega
  have hposition' : next.recording.cursor = position + 1 := by
    rw [(h.poised.advanceBy hnext).2.2]
    omega
  have hview := h.core_viewAt hs h hthere hc
  have hview' := h.core_viewAt hs h hnext hc
  rw [hposition] at hview
  rw [hposition'] at hview'
  obtain ⟨events, hp, rfl⟩ : ∃ events, there.passage = .ok events ∧ there.past events = next := by
    rw [Workbench.advanceBy, hthere] at hnext
    exact exists_of_map_eq_ok hnext
  obtain ⟨step, hstep⟩ : ∃ step, session.bench.recording.steps[position]? = some step :=
    ⟨_, List.getElem?_eq_getElem hlt⟩
  refine ⟨step, events, hstep, (h.poised.advanceBy hthere).1.congr hview, ?_, ?_,
    (Workbench.passage_congr hview).trans hp,
    hview'.trans (Workbench.core_past_congr hview events).symm⟩
  · rw [Workbench.step, Workbench.recording_congr hview, Recording.nextStep,
      h.steps_eq hs h hthere, hposition, hstep]
  · rw [Workbench.recording_congr hview, Recording.remaining, h.length_eq hs h hthere, hposition]

theorem exists_passage (hl : Loaded session) (hp : session.Processes) {position : Nat}
    (hlt : position < session.traceLength) :
    ∃ step events, session.Passes position step events := by
  obtain ⟨start, base, ticket, hs, h, hcursor, -⟩ := hl.outset hp
  exact h.exists_passage hs hcursor hlt

/-- The state of a session is that of the view at its cursor. -/
theorem At.slices_eq (hs : Outset start) (h : At start base ticket session)
    (hc : session.cursor = 0) (h' : At start base' ticket' here) :
    here.bench.slices = (session.viewAt here.cursor).slices := by
  have hview := Workbench.slices_congr (h.core_viewAt hs h' (Workbench.advanceBy_zero _) hc)
  rw [h'.bench_eq, h'.cursor_eq, hview]

/-- The cursor of a session is on its trace. -/
theorem At.cursor_le (hs : Outset start) (h : At start base ticket session)
    (h' : At start base' ticket' here) : here.cursor ≤ session.traceLength := by
  have hle := base'.bench.recording.cursor_le
  rw [h.length_eq hs h' (Workbench.advanceBy_zero _)] at hle
  rwa [h'.cursor_eq]

end TraceDebugger.Session
