/-
Where steps over the source come to rest.

A session can stop at a position before the end that has a source range and no contract for its node
(`Stoppable`).  A single step over the source compares with its own start only, and yet in a row
such steps rest exactly where the range changes from one stoppable position to the next (`StopsAt`).

* `At.carryOut_stepNext` — one step rests at the first stoppable position that differs from its
  start;
* `stopsAt_iff_of_stoppable` — past a stoppable position only what comes after it counts;
* `At.exists_rests` — where an order rests that is given again and again;
* `stepNext_stops` — the resting places of steps in a row.
-/
import TraceDebugger.Proofs.Session.Confluence

namespace TraceDebugger

theorem SourceRange.same_iff {a b : Option SourceRange} :
    SourceRange.same a b = true ↔
      a.map (fun range => (range.start, range.length))
        = b.map fun range => (range.start, range.length) := by
  cases a with
  | none => cases b <;> simp [SourceRange.same]
  | some a => cases b <;> simp [SourceRange.same, SourceRange.sameAs]

namespace Workbench

variable {bench : Workbench}

theorem range_congr {other : Workbench} (h : other.core = bench.core) :
    other.range = bench.range := by
  show other.core.range = bench.core.range
  rw [h]

theorem node_congr {other : Workbench} (h : other.core = bench.core) : other.node = bench.node := by
  show other.core.node = bench.core.node
  rw [h]

theorem Poised.finished_iff (h : bench.Poised) :
    bench.finished = true ↔ bench.recording.cursor = bench.recording.steps.length := by
  have hle := bench.recording.cursor_le
  rw [finished, Recording.finished, h.loaded, Bool.true_and, decide_eq_true_iff]
  omega

/-- A walk of one segment passes positions where it cannot rest, up to one where it can. -/
theorem Runs.segment {start : Option SourceRange} {pursuit : Pursuit} {blocks : List (List Event)}
    {reached : Workbench} {fault : Option Fault} (h : Runs bench pursuit blocks reached fault) :
    pursuit = .walk start .segment → fault = none →
      (∀ i there, 0 < i → i < blocks.length → bench.advanceBy i = .ok there →
        there.finished = false ∧ there.restsFrom start = .ok false) ∧
      (reached.finished = true ∨ reached.restsFrom start = .ok true) := by
  induction h with
  | @ended bench pursuit events h hn =>
    rintro rfl -
    refine ⟨fun i there hpos hlt _ => ?_, ?_⟩
    · rw [List.length_singleton] at hlt
      omega
    · cases proceed_walk_iff.mp hn with
      | finished hf => exact .inl hf
      | ends _ hr _ => exact .inr hr
  | failed _ _ => exact fun _ hfault => by cases hfault
  | @on bench pursuit events more blocks reached fault h hm _ ih =>
    rintro rfl hfault
    -- a segment that goes on is the same segment, and it could not rest
    obtain ⟨hf, hrests, rfl⟩ : (bench.past events).finished = false ∧
        (bench.past events).restsFrom start = .ok false ∧ .walk start .segment = more := by
      cases proceed_walk_iff.mp hm with
      | passes hf hr => exact ⟨hf, hr, rfl⟩
      | again _ _ hw _ => cases hw
    obtain ⟨hpassed, hlast⟩ := ih rfl hfault
    refine ⟨?_, hlast⟩
    intro i there hpos hlt hthere
    obtain ⟨i, rfl⟩ := Nat.exists_eq_succ_of_ne_zero (Nat.ne_of_gt hpos)
    have hthere : (bench.past events).advanceBy i = .ok there :=
      (advanceBy_succ_of_passage h i).symm.trans hthere
    rw [List.length_cons] at hlt
    cases i with
    | zero =>
      obtain rfl := Except.ok.inj hthere
      exact ⟨hf, hrests⟩
    | succ i => exact hpassed (i + 1) there (Nat.succ_pos i) (by omega) hthere

theorem restsFrom_eq {range : Option SourceRange} {node : Option Node}
    (hrange : bench.range = .ok range) (hnode : bench.node = .ok node)
    (start : Option SourceRange) :
    bench.restsFrom start = .ok (!(node.any fun node => node.kind = .contract) && range.isSome
      && !SourceRange.same range start) := by
  rw [restsFrom, hnode, hrange]
  rfl

end Workbench

namespace Session

/-! ### Positions -/

/-- The source range that is read at a position, if there is one. -/
def rangeAt (session : Session) (position : Nat) : Option SourceRange :=
  (session.viewAt position).range.toOption.join

/-- The syntax tree node that is read at a position, if there is one. -/
def nodeAt (session : Session) (position : Nat) : Option Node :=
  (session.viewAt position).node.toOption.join

/-- A position before the end that has a source range and is not at a contract. -/
def Stoppable (session : Session) (position : Nat) : Prop :=
  position < session.traceLength ∧ (session.rangeAt position).isSome ∧
    ∀ node, session.nodeAt position = some node → node.kind ≠ .contract

/-- The latest stoppable position strictly between two positions, or the first of the two if there
is none. -/
def Latest (session : Session) (first last position : Nat) : Prop :=
  (position = first ∨ first < position ∧ position < last ∧ session.Stoppable position) ∧
    ∀ other, position < other → other < last → ¬ session.Stoppable other

/-- A stoppable position past the first one whose range differs from that of the latest stoppable
position between, or from the range at the first one if there is none. -/
def StopsAt (session : Session) (first position : Nat) : Prop :=
  first < position ∧ session.Stoppable position ∧
    ∃ latest, session.Latest first position latest ∧
      SourceRange.same (session.rangeAt position) (session.rangeAt latest) = false

variable {session : Session}

theorem exists_latest (session : Session) {first last : Nat} (h : first < last) :
    ∃ position, session.Latest first last position := by
  induction h with
  | refl => exact ⟨first, .inl rfl, fun other hlt hlt' => by omega⟩
  | @step last hle ih =>
    -- a position that may be stopped at is the latest so far; any other changes nothing
    by_cases hs : session.Stoppable last
    · exact ⟨last, .inr ⟨hle, Nat.lt_succ_self last, hs⟩, fun other hlt hlt' => by omega⟩
    · obtain ⟨position, hposition, hnone⟩ := ih
      refine ⟨position, ?_, ?_⟩
      · rcases hposition with rfl | ⟨hlt, hlt', hstop⟩
        · exact .inl rfl
        · exact .inr ⟨hlt, Nat.lt_succ_of_lt hlt', hstop⟩
      · intro other hlt hlt'
        rcases Nat.lt_succ_iff_lt_or_eq.mp hlt' with hother | rfl
        · exact hnone other hlt hother
        · exact hs

theorem latest_iff_of_stoppable {first middle last position : Nat} (hm : first < middle)
    (hs : session.Stoppable middle) (hl : middle < last) :
    session.Latest first last position ↔ session.Latest middle last position := by
  constructor
  · rintro ⟨hposition, hnone⟩
    -- what lies before the middle is not the latest
    have hle : middle ≤ position := by
      by_contra hlt
      exact hnone middle (by omega) hl hs
    refine ⟨?_, hnone⟩
    rcases hposition with rfl | ⟨-, hlt, hstop⟩
    · omega
    · rcases Nat.eq_or_lt_of_le hle with rfl | hgt
      · exact .inl rfl
      · exact .inr ⟨hgt, hlt, hstop⟩
  · rintro ⟨hposition, hnone⟩
    refine ⟨.inr ?_, hnone⟩
    rcases hposition with rfl | ⟨hgt, hlt, hstop⟩
    · exact ⟨hm, hl, hs⟩
    · exact ⟨by omega, hlt, hstop⟩

/-- Past a stoppable position only what comes after it counts. -/
theorem stopsAt_iff_of_stoppable {first middle position : Nat} (hm : first < middle)
    (hs : session.Stoppable middle) (hp : middle < position) :
    session.StopsAt first position ↔ session.StopsAt middle position := by
  constructor
  · rintro ⟨-, hstop, latest, hlatest, hdiffers⟩
    exact ⟨hp, hstop, latest, (latest_iff_of_stoppable hm hs hp).mp hlatest, hdiffers⟩
  · rintro ⟨-, hstop, latest, hlatest, hdiffers⟩
    have hlatest := (latest_iff_of_stoppable hm hs hp).mpr hlatest
    exact ⟨Nat.lt_trans hm hp, hstop, latest, hlatest, hdiffers⟩

/-- No stoppable position strictly between differs in its range from the first position. -/
def Uniform (session : Session) (first last : Nat) : Prop :=
  ∀ position, first < position → position < last → session.Stoppable position →
    SourceRange.same (session.rangeAt position) (session.rangeAt first) = true

theorem Uniform.same_latest {first last latest : Nat} (h : session.Uniform first last)
    (hl : session.Latest first last latest) :
    SourceRange.same (session.rangeAt latest) (session.rangeAt first) = true := by
  rcases hl.1 with rfl | ⟨hlt, hlt', hstop⟩
  · exact SourceRange.same_iff.mpr rfl
  · exact h latest hlt hlt' hstop

theorem Uniform.mono {first last last' : Nat} (h : session.Uniform first last)
    (hle : last' ≤ last) :
    session.Uniform first last' :=
  fun position hlt hlt' => h position hlt (Nat.lt_of_lt_of_le hlt' hle)

/-- Where nothing has differed yet, it stops where something differs from the first position. -/
theorem Uniform.stopsAt_iff {first position : Nat} (h : session.Uniform first position) :
    session.StopsAt first position ↔ first < position ∧ session.Stoppable position ∧
      SourceRange.same (session.rangeAt position) (session.rangeAt first) = false := by
  have hsame : ∀ {latest}, session.Latest first position latest →
      SourceRange.same (session.rangeAt position) (session.rangeAt latest)
        = SourceRange.same (session.rangeAt position) (session.rangeAt first) := by
    intro latest hlatest
    have hlatest := SourceRange.same_iff.mp (h.same_latest hlatest)
    rw [Bool.eq_iff_iff, SourceRange.same_iff, SourceRange.same_iff, hlatest]
  constructor
  · rintro ⟨hlt, hstop, latest, hlatest, hdiffers⟩
    exact ⟨hlt, hstop, (hsame hlatest).symm.trans hdiffers⟩
  · rintro ⟨hlt, hstop, hdiffers⟩
    obtain ⟨latest, hlatest⟩ := exists_latest session hlt
    exact ⟨hlt, hstop, latest, hlatest, (hsame hlatest).trans hdiffers⟩

theorem Uniform.not_stopsAt {first last position : Nat} (h : session.Uniform first last)
    (hp : position < last) : ¬ session.StopsAt first position := by
  intro hstops
  obtain ⟨hlt, hstop, hdiffers⟩ := (h.mono (Nat.le_of_lt hp)).stopsAt_iff.mp hstops
  rw [h position hlt hp hstop] at hdiffers
  cases hdiffers

/-! ### One step over the source -/

variable {start : Workbench} {base base' : Base} {ticket ticket' : Ticket} {here : Session}

/-- The range and the node of every position are read. -/
theorem At.view_readings (hs : Outset start) (h : At start base ticket session) (position : Nat) :
    (session.viewAt position).range = .ok (session.rangeAt position) ∧
      (session.viewAt position).node = .ok (session.nodeAt position) := by
  obtain ⟨⟨_, _, hview⟩, -⟩ := At.obey hs (List.replicate position .advance) h
  obtain ⟨range, tree, node, hrange, -, hnode⟩ :=
    (hview.processable hs).exists_readings hview.poised
  have hbench : session.viewAt position = _ := hview.bench_eq
  rw [rangeAt, nodeAt, hbench, hrange, hnode]
  exact ⟨rfl, rfl⟩

section There

variable (hs : Outset start) (h : At start base ticket session) (h' : At start base' ticket' here)
  {count : Nat} {there : Workbench} (hthere : base'.bench.advanceBy count = .ok there)

include hs h h' hthere

theorem At.readings (hc : session.cursor = 0) :
    there.range = .ok (session.rangeAt there.recording.cursor) ∧
      there.node = .ok (session.nodeAt there.recording.cursor) := by
  have hview := h.core_viewAt hs h' hthere hc
  rw [← Workbench.range_congr hview, ← Workbench.node_congr hview]
  exact h.view_readings hs there.recording.cursor

theorem At.finished_iff :
    there.finished = true ↔ there.recording.cursor = session.traceLength := by
  obtain ⟨hpoised, -, -⟩ := h'.poised.advanceBy hthere
  rw [hpoised.finished_iff, h.length_eq hs h' hthere]

/-- A walk can rest at a position if the session can stop there and the range differs. -/
theorem At.rests_iff (hc : session.cursor = 0) (hf : there.finished = false)
    {origin : Option SourceRange} {rests : Bool} (hr : there.restsFrom origin = .ok rests) :
    rests = true ↔ session.Stoppable there.recording.cursor ∧
      SourceRange.same (session.rangeAt there.recording.cursor) origin = false := by
  -- a cursor that is not at the end stands before it
  have hlt : there.recording.cursor < session.traceLength := by
    have hle := there.recording.cursor_le
    have hne := mt (h.finished_iff hs h' hthere).mpr (Bool.eq_false_iff.mp hf)
    rw [h.length_eq hs h' hthere] at hle
    omega
  obtain ⟨hrange, hnode⟩ := h.readings hs h' hthere hc
  rw [Workbench.restsFrom_eq hrange hnode] at hr
  obtain rfl := Except.ok.inj hr
  -- a position without a node may be rested at, like one at a node that is no contract
  have hcontract : (session.nodeAt there.recording.cursor).any (fun n => n.kind = .contract) = false
      ↔ ∀ node, session.nodeAt there.recording.cursor = some node → node.kind ≠ .contract := by
    cases session.nodeAt there.recording.cursor with
    | none => simp
    | some node => simp
  rw [Bool.and_eq_true, Bool.and_eq_true, Bool.not_eq_true', Bool.not_eq_true', hcontract,
    Stoppable]
  constructor
  · rintro ⟨⟨hnode, hrange⟩, hdiffers⟩
    exact ⟨⟨hlt, hrange, hnode⟩, hdiffers⟩
  · rintro ⟨⟨-, hrange, hnode⟩, hdiffers⟩
    exact ⟨⟨hnode, hrange⟩, hdiffers⟩

end There

/-- A step over the source rests at the first stoppable position whose range differs from that at
its start, or at the end. -/
theorem At.carryOut_stepNext (hs : Outset start) (h : At start base ticket session)
    (hc : session.cursor = 0) (h' : At start base' ticket' here) :
    ∃ base'' ticket'', At start base'' ticket'' (here.carryOut .stepNext).1 ∧
      session.Uniform here.cursor (here.carryOut .stepNext).1.cursor ∧
      ((here.carryOut .stepNext).1.cursor = session.traceLength ∨
        session.StopsAt here.cursor (here.carryOut .stepNext).1.cursor) := by
  obtain ⟨pursuit, blocks, reached, base'', ticket'', hbegin, hruns, -, hnext, hleft⟩ :=
    h'.carryOut hs .stepNext
  obtain ⟨hrange, -⟩ := h.readings hs h' (Workbench.advanceBy_zero _) hc
  obtain rfl : .walk (session.rangeAt base'.bench.recording.cursor) .segment = pursuit :=
    Except.ok.inj ((Workbench.walk_of_range hrange .segment).symm.trans hbegin)
  obtain ⟨hpassed, hlast⟩ := hruns.segment rfl rfl
  have hlength := h.length_eq hs h' (Workbench.advanceBy_zero _)
  obtain ⟨-, -, hcursor⟩ := h'.poised.advanceBy hruns.advanceBy
  rw [hlength] at hcursor
  have hhere := h'.cursor_eq
  have hrest : (here.carryOut .stepNext).1.cursor = reached.recording.cursor :=
    hnext.cursor_of_core hleft.core
  -- a stoppable position on the way whose range differed would have ended the walk
  have huniform : session.Uniform here.cursor reached.recording.cursor := by
    intro position hlt hlt' hstop
    rw [hhere] at hlt ⊢
    obtain ⟨there, hthere⟩ := h'.processable hs (position - base'.bench.recording.cursor)
    have hposition : there.recording.cursor = position := by
      rw [(h'.poised.advanceBy hthere).2.2, hlength]
      omega
    obtain ⟨hf, hr⟩ := hpassed _ there (by omega) (by omega) hthere
    have hrests := h.rests_iff hs h' hthere hc hf hr
    rw [hposition] at hrests
    cases hsame : SourceRange.same (session.rangeAt position)
        (session.rangeAt base'.bench.recording.cursor) with
    | true => rfl
    | false => exact absurd (hrests.mpr ⟨hstop, hsame⟩) Bool.false_ne_true
  refine ⟨base'', ticket'', hnext, ?_⟩
  rw [hrest]
  refine ⟨huniform, ?_⟩
  by_cases hf : reached.finished = true
  · exact .inl ((h.finished_iff hs h' hruns.advanceBy).mp hf)
  · have hr := hlast.resolve_left hf
    obtain ⟨hstop, hdiffers⟩ := (h.rests_iff hs h' hruns.advanceBy hc
      (Bool.eq_false_iff.mpr hf) hr).mp rfl
    refine .inr (huniform.stopsAt_iff.mpr ⟨?_, hstop, hhere ▸ hdiffers⟩)
    have hpos := List.length_pos_iff.mpr hruns.blocks_ne_nil
    have hlt := hstop.1
    omega

/-! ### Steps in a row -/

/-- Where some orders rest, one after the other, and whether the trace is finished there. -/
def rests (session : Session) : List Order → List (Nat × Bool)
  | [] => []
  | order :: rest =>
    ((session.carryOut order).1.cursor, (session.carryOut order).1.bench.finished) ::
      (session.carryOut order).1.rests rest

theorem At.finished_bench_iff (hs : Outset start) (h : At start base ticket session)
    (h' : At start base' ticket' here) :
    here.bench.finished = true ↔ here.cursor = session.traceLength := by
  rw [h'.bench_eq, h'.cursor_eq]
  exact h.finished_iff hs h' (Workbench.advanceBy_zero _)

/-- An order that stops at the first of some positions, and then has the others before it, rests at
all of them when it is given again and again: each once, in their order, and then at the end of the
trace. -/
theorem At.exists_rests (hs : Outset start) (h : At start base ticket session) {order : Order}
    (stops : Session → Nat → Prop)
    (hlater : ∀ base' ticket' here, At start base' ticket' here →
      ∀ position, stops here position → here.cursor < position)
    (hstep : ∀ base' ticket' here, At start base' ticket' here →
      (here.carryOut order).1.cursor = session.traceLength ∧ (∀ position, ¬ stops here position) ∨
      here.cursor < (here.carryOut order).1.cursor ∧
        (here.carryOut order).1.cursor < session.traceLength ∧
        ∀ position, stops here position ↔
          position = (here.carryOut order).1.cursor ∨ stops (here.carryOut order).1 position) :
    ∀ {base' ticket' here}, At start base' ticket' here →
      ∃ positions : List Nat, positions.Pairwise (· < ·) ∧
        (∀ position, position ∈ positions ↔ stops here position) ∧
        here.rests (List.replicate (positions.length + 1) order)
          = positions.map (·, false) ++ [(session.traceLength, true)] := by
  intro base' ticket' here h'
  -- each order but the last leaves fewer positions
  induction hn : session.traceLength - here.cursor using Nat.strongRecOn
    generalizing base' ticket' here with
  | _ n ih =>
    obtain ⟨-, -, -, base'', ticket'', -, -, -, hnext, -⟩ := h'.carryOut hs order
    have hfinished := h.finished_bench_iff hs hnext
    rcases hstep base' ticket' here h' with ⟨hend, hnone⟩ | ⟨hforward, hbefore, hiff⟩
    · refine ⟨[], .nil, fun position => ?_, ?_⟩
      · exact ⟨fun hp => absurd hp List.not_mem_nil, fun hp => absurd hp (hnone position)⟩
      · show [(_, _)] = [(_, _)]
        rw [hend, hfinished.mpr hend]
    · obtain ⟨positions, hsorted, hmem, hrests⟩ := ih _ (by omega) hnext rfl
      refine ⟨(here.carryOut order).1.cursor :: positions, ?_, ?_, ?_⟩
      · exact .cons (fun position hp => hlater _ _ _ hnext position ((hmem position).mp hp)) hsorted
      · intro position
        rw [List.mem_cons, hmem, hiff]
      · have hunfinished : (here.carryOut order).1.bench.finished = false := by
          rw [Bool.eq_false_iff, ne_eq, hfinished]
          exact Nat.ne_of_lt hbefore
        show (_, _) :: (here.carryOut order).1.rests _ = _
        rw [hunfinished, List.length_cons, hrests]
        rfl

/-- The positions where steps over the source rest from some position on, until the trace is
finished. -/
theorem At.exists_stops (hs : Outset start) (h : At start base ticket session)
    (hc : session.cursor = 0) : ∀ {base' ticket' here}, At start base' ticket' here →
      ∃ stops : List Nat, stops.Pairwise (· < ·) ∧
        (∀ position, position ∈ stops ↔ session.StopsAt here.cursor position) ∧
        here.rests (List.replicate (stops.length + 1) .stepNext)
          = stops.map (·, false) ++ [(session.traceLength, true)] := by
  refine h.exists_rests hs (fun here position => session.StopsAt here.cursor position)
    (fun _ _ _ _ position hp => hp.1) fun base' ticket' here h' => ?_
  obtain ⟨base'', ticket'', hnext, huniform, hrests⟩ := h.carryOut_stepNext hs hc h'
  rcases hrests with hend | hstops
  · rw [hend] at huniform
    exact .inl ⟨hend, fun position hp => huniform.not_stopsAt hp.2.1.1 hp⟩
  · obtain ⟨hlt, hstop, -⟩ := id hstops
    refine .inr ⟨hlt, hstop.1, fun position => ⟨fun hp => ?_, ?_⟩⟩
    · rcases Nat.lt_trichotomy position (here.carryOut .stepNext).1.cursor with
        hbefore | rfl | hafter
      · exact absurd hp (huniform.not_stopsAt hbefore)
      · exact .inl rfl
      · exact .inr ((stopsAt_iff_of_stoppable hlt hstop hafter).mp hp)
    · -- the rest stops where the first one would have stopped after this position
      rintro (rfl | hp)
      · exact hstops
      · exact (stopsAt_iff_of_stoppable hlt hstop hp.1).mpr hp

/-- **Steps over the source.** Wherever orders have led after a trace is loaded whose steps can all
be processed, steps over the source in a row rest, each once and in this order, at the positions
where the source range changes, and then at the end of the trace. -/
theorem stepNext_stops (hl : Loaded session) (hp : session.Processes) (orders : List Order) :
    (∀ position, ∃ range node, (session.viewAt position).range = .ok range ∧
      (session.viewAt position).node = .ok node) ∧
    ∃ stops : List Nat, stops.Pairwise (· < ·) ∧
      (∀ position, position ∈ stops ↔ session.StopsAt (session.obey orders).cursor position) ∧
      (session.obey orders).rests (List.replicate (stops.length + 1) .stepNext)
        = stops.map (·, false) ++ [(session.traceLength, true)] := by
  obtain ⟨start, base, ticket, hs, h, hcursor, -⟩ := hl.outset hp
  obtain ⟨⟨base', ticket', hreached⟩, -⟩ := At.obey hs orders h
  refine ⟨?_, h.exists_stops hs hcursor hreached⟩
  -- the readings at a position are those of a session that advances to it
  intro position
  obtain ⟨⟨base'', ticket'', hview⟩, -⟩ := At.obey hs (List.replicate position .advance) h
  obtain ⟨range, tree, node, hrange, -, hnode⟩ :=
    (hview.processable hs).exists_readings hview.poised
  rw [viewAt, hview.eq_rest]
  exact ⟨range, node, hrange, hnode⟩

theorem brief_stepNext_stops :
    Loaded brief ∧ brief.Processes ∧ ∃ stops : List Nat, stops.Pairwise (· < ·) ∧
      (∀ position, position ∈ stops ↔ brief.StopsAt (brief.obey [.advance]).cursor position) ∧
      (brief.obey [.advance]).rests (List.replicate (stops.length + 1) .stepNext)
        = stops.map (·, false) ++ [(brief.traceLength, true)] :=
  ⟨loaded_brief, processes_brief, (stepNext_stops loaded_brief processes_brief [.advance]).2⟩

end Session

end TraceDebugger
