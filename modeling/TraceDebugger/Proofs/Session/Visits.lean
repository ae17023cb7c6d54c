/-
Walks over the visited positions.

A command that walks is a chain of steps over the source: wherever one of them rests, the purpose of
the command decides whether another one follows.  So the command ends at the first of the positions
that steps over the source visit in a row where its purpose is met (`FirstVisited`).

* `Runs.exists_segment` — a walk is a step over the source, and perhaps a walk from where it rests;
* `At.visits` — steps over the source in a row go forward up to the end of the trace;
* `At.firstVisited` — a walk ends at the first visited position that meets its purpose;
* `stepOver_stepOut_visits`, `stepInto_visits` — where steps over, out and into end.
-/
import TraceDebugger.Proofs.Session.Comparison
import TraceDebugger.Proofs.Session.Depths
import TraceDebugger.Proofs.Session.Stops

namespace TraceDebugger

namespace Workbench

variable {bench : Workbench}

theorem walksOn_congr {other : Workbench} (h : other.core = bench.core) (purpose : Purpose) :
    other.walksOn purpose = bench.walksOn purpose := by
  show other.core.walksOn purpose = bench.core.walksOn purpose
  rw [h]

/-- A step over does not go on where the function has been left or another line is reached. -/
theorem walksOn_over_iff {depth : Int} {start range : Option SourceRange}
    (hrange : bench.range = .ok range) :
    bench.walksOn (.over depth start) = .ok false ↔ bench.functionDepth < depth ∨
      bench.functionDepth = depth ∧ SourceRange.sameLine range start = false := by
  -- a deeper function is passed on any line, the function itself only on the line of the start
  have hgoes : bench.walksOn (.over depth start) = .ok (depth ≤ bench.functionDepth
      && (depth < bench.functionDepth || SourceRange.sameLine range start)) := by
    rw [walksOn, hrange]
    rfl
  rw [hgoes, Except.ok.injEq, Bool.and_eq_false_iff, Bool.or_eq_false_iff, decide_eq_false_iff_not,
    decide_eq_false_iff_not]
  constructor
  · rintro (hless | ⟨hle, hline⟩)
    · exact .inl (by omega)
    · rcases Int.lt_or_le bench.functionDepth depth with hlt | hge
      · exact .inl hlt
      · exact .inr ⟨by omega, hline⟩
  · rintro (hless | ⟨heq, hline⟩)
    · exact .inl (by omega)
    · exact .inr ⟨by omega, hline⟩

/-- A walk is over where its first segment rests, or it goes on from there with another one. -/
theorem Runs.exists_segment {pursuit : Pursuit} {blocks : List (List Event)} {reached : Workbench}
    {fault : Option Fault} (h : Runs bench pursuit blocks reached fault) :
    ∀ {start purpose}, pursuit = .walk start purpose → fault = none →
      ∃ first middle, Runs bench (.walk start .segment) first middle none ∧
        ((middle.finished = true ∨ middle.walksOn purpose = .ok false) ∧ blocks = first ∧
            reached = middle ∨
          middle.finished = false ∧ middle.walksOn purpose = .ok true ∧
            ∃ range rest, middle.range = .ok range ∧
              Runs middle (.walk range purpose) rest reached none ∧ blocks = first ++ rest) := by
  induction h with
  | @ended bench pursuit events h hn =>
    rintro start purpose rfl -
    refine ⟨[events], bench.past events, ?_⟩
    cases proceed_walk_iff.mp hn with
    | finished hf =>
      exact ⟨.ended h (proceed_walk_iff.mpr (.finished hf)), .inl ⟨.inl hf, rfl, rfl⟩⟩
    | ends hf hr hw =>
      exact ⟨.ended h (proceed_walk_iff.mpr (.ends hf hr rfl)), .inl ⟨.inr hw, rfl, rfl⟩⟩
  | failed _ _ => exact fun _ hfault => by cases hfault
  | @on bench pursuit events more blocks reached fault h hm hrest ih =>
    rintro start purpose rfl rfl
    cases proceed_walk_iff.mp hm with
    | passes hf hr =>
      -- the segment is not over yet
      obtain ⟨first, middle, hfirst, hcases⟩ := ih rfl rfl
      refine ⟨events :: first, middle,
        .on h (proceed_walk_iff.mpr (.passes hf hr)) hfirst, ?_⟩
      rcases hcases with ⟨hmet, rfl, rfl⟩ | ⟨hf', hw', range, rest, hrange, hrest', rfl⟩
      · exact .inl ⟨hmet, rfl, rfl⟩
      · exact .inr ⟨hf', hw', range, rest, hrange, hrest', rfl⟩
    | @again range hf hr hw hrange =>
      exact ⟨[events], bench.past events, .ended h (proceed_walk_iff.mpr (.ends hf hr rfl)),
        .inr ⟨hf, hw, range, blocks, hrange, hrest, rfl⟩⟩

end Workbench

namespace Session

variable {start : Workbench} {base base' : Base} {ticket ticket' : Ticket}
  {origin here session : Session}

/-! ### Visited positions -/

/-- An order is carried out and ends at a position. -/
def EndsAt (session : Session) (order : Order) (position : Nat) : Prop :=
  (session.carryOut order).2 = ⟨some (.ok (.flag true)), false⟩ ∧ session.landing order = position

/-- The position after some steps over the source. -/
def visited (session : Session) (count : Nat) : Nat :=
  (session.obey (List.replicate count .stepNext)).cursor

/-- All steps over the source are carried out, and in a row they go forward up to a position. -/
structure VisitsUpTo (session : Session) (final : Nat) : Prop where
  carriedOut : ∀ count,
    (session.obey (List.replicate count .stepNext)).EndsAt .stepNext (session.visited (count + 1))
  climbs : ∃ last, session.visited last = final ∧
    ∀ count < last, session.visited count < session.visited (count + 1)

/-- Of the positions at which steps over the source end, it is the first one with a property. -/
def FirstVisited (session : Session) (property : Nat → Prop) (position : Nat) : Prop :=
  ∃ count, session.visited (count + 1) = position ∧ property position ∧
    ∀ earlier < count, ¬ property (session.visited (earlier + 1))

theorem visited_succ (session : Session) (count : Nat) :
    session.visited (count + 1) = (session.carryOut .stepNext).1.visited count := rfl

theorem visited_one (session : Session) : session.visited 1 = session.landing .stepNext := rfl

theorem visited_add (session : Session) (first second : Nat) :
    session.visited (first + second)
      = (session.obey (List.replicate first .stepNext)).visited second := by
  simp only [visited, obey, List.replicate_add, List.foldl_append]

/-- Which positions are visited is settled by the cursor. -/
theorem At.visited_congr (hs : Outset start) (count : Nat) :
    ∀ {base ticket here base' ticket' there}, At start base ticket here →
      At start base' ticket' there → here.cursor = there.cursor →
        here.visited count = there.visited count := by
  induction count with
  | zero =>
    intro _ _ _ _ _ _ _ _ hc
    exact hc
  | succ count ih =>
    intro base ticket here base' ticket' there h h' hc
    obtain ⟨_, _, _, _, _, _, _, -, hnext, hnext', hcore, -⟩ := h.exists_both hs h' hc .stepNext
    rw [visited_succ, visited_succ]
    exact ih hnext hnext' (congrArg (·.cursor) (Workbench.recording_congr hcore))

theorem At.monotone_visited (hs : Outset start) (h : At start base ticket here) :
    Monotone here.visited := by
  refine monotone_nat_of_le_succ fun count => ?_
  obtain ⟨⟨_, _, h'⟩, -⟩ := At.obey hs (List.replicate count .stepNext) h
  rw [visited_add here count 1, visited_one]
  exact (At.landing_bounds hs h h' .stepNext).1

/-- Steps over the source in a row go forward up to the end of the trace. -/
theorem At.visits (hs : Outset start) (h : At start base ticket session) :
    ∀ {base' ticket' here}, At start base' ticket' here →
      here.VisitsUpTo session.traceLength := by
  intro base' ticket' here h'
  refine ⟨fun count => ?_, ?_⟩
  · obtain ⟨⟨_, _, hthere⟩, -⟩ := At.obey hs (List.replicate count .stepNext) h'
    obtain ⟨_, _, _, _, _, -, -, houtcome, -, -⟩ := hthere.carryOut hs .stepNext
    exact ⟨houtcome, (visited_add here count 1).symm⟩
  · -- each step leaves fewer positions
    induction hn : session.traceLength - here.cursor using Nat.strongRecOn
      generalizing base' ticket' here with
    | _ n ih =>
      rcases Nat.eq_or_lt_of_le (At.cursor_le hs h h') with hend | hlt
      · exact ⟨0, hend, fun count hcount => absurd hcount (Nat.not_lt_zero count)⟩
      · obtain ⟨_, _, _, _, _, -, -, -, hnext, -⟩ := h'.carryOut hs .stepNext
        have hforward : here.cursor < (here.carryOut .stepNext).1.cursor :=
          At.lt_landing hs h h' hlt .stepNext
        obtain ⟨last, hlast, hclimbs⟩ := ih _ (by omega) hnext rfl
        refine ⟨last + 1, by rw [visited_succ, hlast], fun count hcount => ?_⟩
        cases count with
        | zero => exact hforward
        | succ count =>
          rw [visited_succ, visited_succ]
          exact hclimbs count (Nat.lt_of_succ_lt_succ hcount)

/-! ### The first visited position with a property -/

namespace FirstVisited

variable {property other : Nat → Prop} {position position' : Nat}

theorem first (h : property (session.visited 1)) :
    session.FirstVisited property (session.visited 1) :=
  ⟨0, rfl, h, fun earlier hearlier => absurd hearlier (Nat.not_lt_zero earlier)⟩

theorem later (h : ¬ property (session.visited 1))
    (hrest : (session.carryOut .stepNext).1.FirstVisited property position) :
    session.FirstVisited property position := by
  obtain ⟨count, hvisited, hhas, hnone⟩ := hrest
  refine ⟨count + 1, by rw [visited_succ, hvisited], hhas, fun earlier hearlier => ?_⟩
  cases earlier with
  | zero => exact h
  | succ earlier =>
    rw [visited_succ]
    exact hnone earlier (Nat.lt_of_succ_lt_succ hearlier)

theorem unique (h : session.FirstVisited property position)
    (h' : session.FirstVisited property position') : position = position' := by
  obtain ⟨count, rfl, hhas, hnone⟩ := h
  obtain ⟨count', rfl, hhas', hnone'⟩ := h'
  rcases Nat.lt_trichotomy count count' with hlt | rfl | hlt
  · exact absurd hhas (hnone' count hlt)
  · rfl
  · exact absurd hhas' (hnone count' hlt)

theorem congr (h : session.FirstVisited property position)
    (hiff : ∀ position, property position ↔ other position) :
    session.FirstVisited other position := by
  obtain ⟨count, hvisited, hhas, hnone⟩ := h
  exact ⟨count, hvisited, (hiff _).mp hhas,
    fun earlier hearlier => mt (hiff _).mpr (hnone earlier hearlier)⟩

end FirstVisited

/-! ### Walks -/

/-- The purpose of a walk is met at a position: it is the end of the trace, or no other walk follows
there. -/
def MetAt (session : Session) (purpose : Purpose) (position : Nat) : Prop :=
  position = session.traceLength ∨ (session.viewAt position).walksOn purpose = .ok false

theorem At.metAt_iff (hs : Outset start) (h : At start base ticket session)
    (hc : session.cursor = 0) (h' : At start base' ticket' here) {bench : Workbench}
    (hcore : bench.core = base'.bench.core) (purpose : Purpose) :
    session.MetAt purpose here.cursor ↔
      bench.finished = true ∨ bench.walksOn purpose = .ok false := by
  have hstay := Workbench.advanceBy_zero base'.bench
  rw [MetAt, h'.cursor_eq, ← h.finished_iff hs h' hstay, Workbench.finished, Workbench.finished,
    Workbench.recording_congr hcore, Workbench.walksOn_congr hcore,
    Workbench.walksOn_congr (h.core_viewAt hs h' hstay hc)]

/-- A segment is a step over the source. -/
theorem At.exists_stepNext (hs : Outset start) (h : At start base ticket here)
    {bench middle : Workbench} {range : Option SourceRange} {blocks : List (List Event)}
    (hcore : bench.core = base.bench.core) (hrange : bench.range = .ok range)
    (hsegment : bench.Runs (.walk range .segment) blocks middle none) :
    ∃ base' ticket', At start base' ticket' (here.carryOut .stepNext).1 ∧
      middle.core = base'.bench.core ∧ here.visited 1 = middle.recording.cursor := by
  obtain ⟨pursuit, _, reached, base', ticket', hbegin, hruns, -, hnext, hleft⟩ :=
    h.carryOut hs .stepNext
  rw [← Workbench.begin_congr hcore, Workbench.begin_order hrange] at hbegin
  obtain rfl := Except.ok.inj hbegin
  obtain ⟨-, hreached, -⟩ := hsegment.eq_of_core hcore.symm hruns
  have hmiddle : middle.core = base'.bench.core := hreached.symm.trans hleft.core.symm
  exact ⟨base', ticket', hnext, hmiddle, hnext.cursor_of_core hmiddle.symm⟩

/-- A walk ends at the first visited position that meets its purpose. -/
theorem At.firstVisited_runs (hs : Outset start) (h : At start base ticket session)
    (hc : session.cursor = 0) {purpose : Purpose} :
    ∀ {base' ticket' here}, At start base' ticket' here →
      ∀ {bench reached : Workbench} {range blocks}, bench.core = base'.bench.core →
        bench.range = .ok range → bench.Runs (.walk range purpose) blocks reached none →
          here.FirstVisited (session.MetAt purpose) reached.recording.cursor := by
  intro base' ticket' here h' bench reached range blocks hcore hrange hruns
  -- the induction is on what the walk passes: its first segment is a step over the source
  induction hn : blocks.length using Nat.strongRecOn
    generalizing base' ticket' here bench range blocks with
  | _ n ih =>
    obtain ⟨first, middle, hfirst, hcases⟩ := hruns.exists_segment rfl rfl
    obtain ⟨base'', ticket'', hnext, hmiddle, hvisited⟩ := h'.exists_stepNext hs hcore hrange hfirst
    have hmet : session.MetAt purpose (here.visited 1) ↔
        middle.finished = true ∨ middle.walksOn purpose = .ok false :=
      h.metAt_iff hs hc hnext hmiddle purpose
    rcases hcases with ⟨hover, rfl, rfl⟩ | ⟨hf, hw, range', rest, hrange', hrest, rfl⟩
    · rw [← hvisited]
      exact .first (hmet.mpr hover)
    · have hunmet : ¬ session.MetAt purpose (here.visited 1) := by
        rw [hmet, hf, hw]
        rintro (heq | heq) <;> cases heq
      have hpos := List.length_pos_iff.mpr hfirst.blocks_ne_nil
      rw [List.length_append] at hn
      exact .later hunmet (ih rest.length (by omega) hnext hmiddle hrange' hrest rfl)

/-- An order that walks is carried out and ends at the first visited position that meets its
purpose. -/
theorem At.firstVisited (hs : Outset start) (h : At start base ticket session)
    (hc : session.cursor = 0) (h' : At start base' ticket' here) (order : Order) {purpose : Purpose}
    (hpursuit : base'.bench.pursuitOf (session.rangeAt here.cursor) order
      = .walk (session.rangeAt here.cursor) purpose) :
    here.EndsAt order (here.landing order) ∧
      here.FirstVisited (session.MetAt purpose) (here.landing order) := by
  -- the range at the start is the one that the order walks away from
  have hrange : base'.bench.range = .ok (session.rangeAt here.cursor) := by
    rw [h'.cursor_eq]
    exact (h.readings hs h' (Workbench.advanceBy_zero _) hc).1
  obtain ⟨pursuit, blocks, reached, base'', ticket'', hbegin, hruns, houtcome, hnext, hleft⟩ :=
    h'.carryOut hs order
  rw [Workbench.begin_order hrange, hpursuit] at hbegin
  obtain rfl := Except.ok.inj hbegin
  refine ⟨⟨houtcome, rfl⟩, ?_⟩
  rw [landing, hnext.cursor_of_core hleft.core]
  exact h.firstVisited_runs hs hc h' rfl hrange hruns

/-! ### What is read at a position -/

/-- The line on which the source range at a position starts, if there is one. -/
def lineAt (session : Session) (position : Nat) : Option Nat :=
  (session.rangeAt position).map (·.first.line)

/-- The source range at a position spans several lines. -/
def SpansLines (session : Session) (position : Nat) : Prop :=
  ∃ range, session.rangeAt position = some range ∧ range.first.line ≠ range.last.line

/-- There is a source range at a position, and it contains the one at another position. -/
def Encloses (session : Session) (outer inner : Nat) : Prop :=
  ∃ range range', session.rangeAt outer = some range ∧ session.rangeAt inner = some range' ∧
    range.start ≤ range'.start ∧ range'.start + range'.length ≤ range.start + range.length

/-- The instruction at a position jumps. -/
def JumpsAt (session : Session) (position : Nat) : Prop :=
  ∃ step, session.bench.recording.steps[position]? = some step ∧
    (step.op = "JUMP" ∨ step.op = "JUMPI")

theorem spansLines_iff {position : Nat} :
    session.SpansLines position ↔
      (session.rangeAt position).any SourceRange.isMultiline = true := by
  rw [SpansLines]
  cases session.rangeAt position with
  | none => simp
  | some range => simp [SourceRange.isMultiline]

theorem jumpsAt_iff {position : Nat} :
    session.JumpsAt position ↔ (session.bench.recording.steps[position]?).any
      (fun step => Opcode.isJump step.op) = true := by
  rw [JumpsAt, Option.any_eq_true]
  simp only [Opcode.isJump, Bool.or_eq_true, beq_iff_eq]

instance (session : Session) (position : Nat) : Decidable (session.SpansLines position) :=
  decidable_of_iff' _ spansLines_iff

instance (session : Session) (position : Nat) : Decidable (session.JumpsAt position) :=
  decidable_of_iff' _ jumpsAt_iff

theorem sameLine_eq_false_iff {first position : Nat} :
    SourceRange.sameLine (session.rangeAt position) (session.rangeAt first) = false ↔
      ∀ line, session.lineAt first = some line → session.lineAt position ≠ some line := by
  rw [lineAt, lineAt]
  cases session.rangeAt first with
  | none => cases session.rangeAt position <;> simp [SourceRange.sameLine]
  | some range => cases session.rangeAt position <;> simp [SourceRange.sameLine]

theorem within_eq_true_iff {outer inner : Nat} :
    SourceRange.within (session.rangeAt outer) (session.rangeAt inner) = true ↔
      session.Encloses outer inner := by
  rw [Encloses]
  cases session.rangeAt outer with
  | none => simp [SourceRange.within]
  | some range =>
    cases session.rangeAt inner with
    | none => simp [SourceRange.within]
    | some range' =>
      rw [SourceRange.within, SourceRange.contains, Bool.and_eq_true, decide_eq_true_iff,
        decide_eq_true_iff]
      constructor
      · exact fun h => ⟨range, range', rfl, rfl, h⟩
      · rintro ⟨_, _, ⟨⟩, ⟨⟩, h⟩
        exact h

section Purposes

variable {first position : Nat}
  (hrange : (session.viewAt position).range = .ok (session.rangeAt position))

include hrange

theorem metAt_over_iff :
    session.MetAt (.over (session.functionDepthAt first) (session.rangeAt first)) position ↔
      position = session.traceLength ∨
      session.functionDepthAt position < session.functionDepthAt first ∨
      session.functionDepthAt position = session.functionDepthAt first ∧
        ∀ line, session.lineAt first = some line → session.lineAt position ≠ some line := by
  rw [MetAt, Workbench.walksOn_over_iff hrange, sameLine_eq_false_iff]
  rfl

theorem metAt_into_iff :
    session.MetAt (.into (session.functionDepthAt first) (session.rangeAt first)) position ↔
      position = session.traceLength ∨
      session.functionDepthAt first < session.functionDepthAt position ∨
      ¬ session.Encloses first position := by
  rw [MetAt, Workbench.walksOn, hrange, ← within_eq_true_iff, Bool.not_eq_true]
  show _ ∨ Except.ok _ = Except.ok false ↔ _
  rw [Except.ok.injEq, Bool.and_eq_false_iff, decide_eq_false_iff_not, Int.not_le]
  rfl

end Purposes

theorem metAt_out_iff {depth : Int} {position : Nat} :
    session.MetAt (.out depth) position ↔
      position = session.traceLength ∨ session.functionDepthAt position < depth := by
  rw [MetAt, Workbench.walksOn, Except.ok.injEq, decide_eq_false_iff_not, Int.not_le]
  rfl

/-- What a session that has come to a position begins its orders with. -/
theorem At.reads (hs : Outset start) (h : At start base ticket session) (hc : session.cursor = 0)
    (h' : At start base' ticket' here) :
    base'.bench.functionDepth = session.functionDepthAt here.cursor ∧
      (base'.bench.opIs Opcode.isJump = true ↔ session.JumpsAt here.cursor) := by
  obtain ⟨-, hdepth⟩ := h.depths hs hc h'
  have hsteps := h.steps_eq hs h' (Workbench.advanceBy_zero _)
  rw [h'.bench_eq] at hdepth
  refine ⟨hdepth, ?_⟩
  rw [jumpsAt_iff, ← hsteps, h'.cursor_eq]
  rfl

/-! ### A run through a function -/

/-- The program of a contract whose first line jumps into the function on the second one. -/
def nestedProgram : Program :=
  ⟨{ name := "Nested"
     sources := [⟨30, [0, 11, 23]⟩]
     entries := [⟨0, 10, 0, .regular, 0⟩, ⟨2, 5, 0, .into, 0⟩, ⟨12, 3, 0, .regular, 0⟩,
       ⟨12, 8, 0, .out, 0⟩, ⟨4, 2, 0, .regular, 0⟩, ⟨24, 4, 0, .regular, 0⟩]
     instructionAt := [(0, 0), (1, 1), (2, 2), (3, 3), (4, 4), (5, 5)] }, []⟩

def nestedSteps : List Step :=
  [{ pc := 0, op := "PUSH1" }, { pc := 1, op := "JUMP" }, { pc := 2, op := "ADD" },
    { pc := 3, op := "JUMP" }, { pc := 4, op := "POP" }, { pc := 5, op := "STOP" }]

/-- A session that has loaded a run of that program. -/
def nested : Session :=
  ((new { fallback := some nestedProgram } none 1).perform (.load nestedSteps none none)).1

theorem loaded_nested : Loaded nested := loaded_of_callTargets rfl _ _ _ _

/-- That run is processed to its end.  The step over from its start passes the function, and the
step into does not. -/
theorem run_nested :
    nested.Processes ∧ nested.store.tripwires = [] ∧ ¬ nested.SpansLines nested.cursor ∧
      ¬ nested.JumpsAt nested.cursor ∧ nested.landing .stepOver = 5 ∧
      nested.landing .stepInto = 2 ∧ nested.landing .stepOut = nested.traceLength := by
  decide +kernel

/-! ### Steps over, out and into -/

/-- **Where steps over and out end.**  Whatever has been asked of a session since it loaded a trace
whose steps are processed, steps over the source visit one position after the other up to the end of
the trace.  A step over ends at the first of them that is the end, or lies out of the function, or
lies in it and on another line than the start; if there is no line at the start, every line is
another one.  A step out ends there too if the range at the start spans several lines, and otherwise
at the first of them that is the end or lies out of the function. -/
theorem stepOver_stepOut_visits (hl : Loaded origin) (hp : origin.Processes)
    (ho : Onward origin here) (hi : here.caller = .idle) (hw : here.store.tripwires = []) :
    here.VisitsUpTo origin.traceLength ∧
    ∃ landed, here.EndsAt .stepOver landed ∧
      here.FirstVisited (fun position => position = origin.traceLength ∨
        origin.functionDepthAt position < origin.functionDepthAt here.cursor ∨
        origin.functionDepthAt position = origin.functionDepthAt here.cursor ∧
          ∀ line, origin.lineAt here.cursor = some line → origin.lineAt position ≠ some line)
        landed ∧
      (origin.SpansLines here.cursor → here.EndsAt .stepOut landed) ∧
      (¬ origin.SpansLines here.cursor → ∃ landed, here.EndsAt .stepOut landed ∧
        here.FirstVisited (fun position => position = origin.traceLength ∨
          origin.functionDepthAt position < origin.functionDepthAt here.cursor) landed) := by
  obtain ⟨start, base₀, ticket₀, base, ticket, hs, hat₀, hcursor, hat⟩ :=
    ho.exists_both_at hl hp hi hw
  obtain ⟨hdepth, -⟩ := hat₀.reads hs hcursor hat
  -- the view at a position and the session when it stops there read the same depth and line
  have hread := fun position => (hat₀.view_readings hs position).1
  obtain ⟨hover, hfirst⟩ := hat₀.firstVisited hs hcursor hat .stepOver
    (by rw [Workbench.pursuitOf, hdepth])
  refine ⟨hat₀.visits hs hat, _, hover,
    hfirst.congr fun position => metAt_over_iff (hread position),
    fun hspans => ?_, fun hspans => ?_⟩
  · -- out of a range of several lines a step goes as a step over does, so both end at one position
    rw [spansLines_iff] at hspans
    obtain ⟨hout, hfirst'⟩ := hat₀.firstVisited hs hcursor hat .stepOut
      (by rw [Workbench.pursuitOf, if_pos hspans, hdepth])
    rwa [hfirst'.unique hfirst] at hout
  · rw [spansLines_iff] at hspans
    obtain ⟨hout, hfirst'⟩ := hat₀.firstVisited hs hcursor hat .stepOut
      (by rw [Workbench.pursuitOf, if_neg hspans, hdepth])
    exact ⟨_, hout, hfirst'.congr fun position => metAt_out_iff⟩

theorem nested_stepOver_stepOut_visits :
    Loaded nested ∧ nested.Processes ∧ Onward nested nested ∧ nested.caller = .idle ∧
      nested.store.tripwires = [] ∧ nested.VisitsUpTo nested.traceLength ∧
      ¬ nested.SpansLines nested.cursor ∧ nested.EndsAt .stepOver 5 ∧
      nested.FirstVisited (fun position => position = nested.traceLength ∨
        nested.functionDepthAt position < nested.functionDepthAt nested.cursor ∨
        nested.functionDepthAt position = nested.functionDepthAt nested.cursor ∧
          ∀ line, nested.lineAt nested.cursor = some line →
            nested.lineAt position ≠ some line) 5 ∧
      nested.EndsAt .stepOut nested.traceLength := by
  obtain ⟨hprocesses, hwired, hspans, -, hover, -, hout⟩ := run_nested
  obtain ⟨hvisits, landed, hends, hfirst, -, hleft⟩ := stepOver_stepOut_visits loaded_nested
    hprocesses .origin loaded_nested.idle hwired
  obtain rfl : landed = 5 := hends.2.symm.trans hover
  obtain ⟨landed', hends', -⟩ := hleft hspans
  obtain rfl : landed' = nested.traceLength := hends'.2.symm.trans hout
  exact ⟨loaded_nested, hprocesses, .origin, loaded_nested.idle, hwired, hvisits, hspans, hends,
    hfirst, hends'⟩

/-- **Where a step into ends.**  Whatever has been asked of a session since it loaded a trace whose
steps are processed, a step into from a jump ends at the first position that steps over the
source visit.  From any other instruction it ends with a step over if the range at the start
spans several lines, and otherwise at the first visited position that is the end of the trace,
or lies in a function that was called, or has a range that is not contained in the one at the
start; a missing range contains none. -/
theorem stepInto_visits (hl : Loaded origin) (hp : origin.Processes) (ho : Onward origin here)
    (hi : here.caller = .idle) (hw : here.store.tripwires = []) :
    here.VisitsUpTo origin.traceLength ∧
    (origin.JumpsAt here.cursor → here.EndsAt .stepInto (here.visited 1)) ∧
    (¬ origin.JumpsAt here.cursor → origin.SpansLines here.cursor →
      ∃ landed, here.EndsAt .stepOver landed ∧ here.EndsAt .stepInto landed) ∧
    (¬ origin.JumpsAt here.cursor → ¬ origin.SpansLines here.cursor →
      ∃ landed, here.EndsAt .stepInto landed ∧
        here.FirstVisited (fun position => position = origin.traceLength ∨
          origin.functionDepthAt here.cursor < origin.functionDepthAt position ∨
          ¬ origin.Encloses here.cursor position) landed) := by
  obtain ⟨start, base₀, ticket₀, base, ticket, hs, hat₀, hcursor, hat⟩ :=
    ho.exists_both_at hl hp hi hw
  obtain ⟨hdepth, hjumps⟩ := hat₀.reads hs hcursor hat
  have hread := fun position => (hat₀.view_readings hs position).1
  refine ⟨hat₀.visits hs hat, fun hjump => ?_, fun hjump hspans => ?_, fun hjump hspans => ?_⟩
  · -- a single segment is met wherever it rests
    rw [← hjumps] at hjump
    obtain ⟨hinto, hfirst⟩ := hat₀.firstVisited hs hcursor hat .stepInto
      (by rw [Workbench.pursuitOf, if_pos hjump])
    rwa [hfirst.unique (.first (.inr rfl))] at hinto
  · rw [← hjumps] at hjump
    rw [spansLines_iff] at hspans
    obtain ⟨hover, hfirst⟩ := hat₀.firstVisited hs hcursor hat .stepOver rfl
    obtain ⟨hinto, hfirst'⟩ := hat₀.firstVisited hs hcursor hat .stepInto
      (by rw [Workbench.pursuitOf, if_neg hjump, if_pos hspans])
    rw [hfirst'.unique hfirst] at hinto
    exact ⟨_, hover, hinto⟩
  · rw [← hjumps] at hjump
    rw [spansLines_iff] at hspans
    obtain ⟨hinto, hfirst⟩ := hat₀.firstVisited hs hcursor hat .stepInto
      (by rw [Workbench.pursuitOf, if_neg hjump, if_neg hspans, hdepth])
    exact ⟨_, hinto, hfirst.congr fun position => metAt_into_iff (hread position)⟩

theorem nested_stepInto_visits :
    Loaded nested ∧ nested.Processes ∧ Onward nested nested ∧ nested.caller = .idle ∧
      nested.store.tripwires = [] ∧ ¬ nested.JumpsAt nested.cursor ∧
      ¬ nested.SpansLines nested.cursor ∧ nested.EndsAt .stepInto 2 ∧
      nested.FirstVisited (fun position => position = nested.traceLength ∨
        nested.functionDepthAt nested.cursor < nested.functionDepthAt position ∨
        ¬ nested.Encloses nested.cursor position) 2 := by
  obtain ⟨hprocesses, hwired, hspans, hjump, -, hinto, -⟩ := run_nested
  obtain ⟨-, -, -, hfirst⟩ := stepInto_visits loaded_nested hprocesses .origin loaded_nested.idle
    hwired
  obtain ⟨landed, hends, hfirst⟩ := hfirst hjump hspans
  obtain rfl : landed = 2 := hends.2.symm.trans hinto
  exact ⟨loaded_nested, hprocesses, .origin, loaded_nested.idle, hwired, hjump, hspans, hends,
    hfirst⟩

end Session

end TraceDebugger
