/-
Ways to breakpoints.

Where steps over the source rest does not depend on breakpoints, and a way to breakpoints that goes
on from where one of them was hit visits the same positions as before.  So breakpoints only choose
among the visited positions, and more breakpoints choose more of them.

* `FirstVisited.min` — the first position with one of two properties is the earlier one of the two
  first positions;
* `metAt_toBreakpoint_iff` — where a way to breakpoints may end;
* `continueUntil_visits` — where ways to breakpoints end, of some, of more, and one after the other.
-/
import TraceDebugger.Proofs.Session.Visits

namespace TraceDebugger.Session

variable {start : Workbench} {base base' : Base} {ticket ticket' : Ticket}
  {origin here session : Session}

/-- One of some breakpoints is hit in the frame, the range and the node that are read at a
position. -/
def HitAt (session : Session) (breakpoints : List Breakpoint) (position : Nat) : Prop :=
  ∃ breakpoint ∈ breakpoints, breakpoint.isHit (session.stackAt position).current
    (session.rangeAt position) ((session.nodeAt position).map (·.id)) = true

theorem hitAt_iff_of_mem_iff {first second both : List Breakpoint}
    (h : ∀ breakpoint, breakpoint ∈ both ↔ breakpoint ∈ first ∨ breakpoint ∈ second)
    (position : Nat) :
    session.HitAt both position ↔ session.HitAt first position ∨ session.HitAt second position := by
  simp only [HitAt, h, or_and_right, exists_or]

theorem metAt_toBreakpoint_iff {breakpoints : List Breakpoint} {position : Nat}
    (hrange : (session.viewAt position).range = .ok (session.rangeAt position))
    (hnode : (session.viewAt position).node = .ok (session.nodeAt position)) :
    session.MetAt (.toBreakpoint breakpoints) position ↔
      position = session.traceLength ∨ session.HitAt breakpoints position := by
  rw [MetAt, Workbench.walksOn, hrange, hnode]
  show _ ∨ Except.ok (!Breakpoint.anyHit ..) = Except.ok false ↔ _
  rw [Except.ok.injEq, Bool.not_eq_false', Breakpoint.anyHit, List.any_eq_true]
  rfl

theorem FirstVisited.min {property other : Nat → Prop} {position position' : Nat}
    (hmono : Monotone session.visited) (h : session.FirstVisited property position)
    (h' : session.FirstVisited other position') :
    session.FirstVisited (fun position => property position ∨ other position)
      (min position position') := by
  obtain ⟨count, rfl, hhas, hnone⟩ := h
  obtain ⟨count', rfl, hhas', hnone'⟩ := h'
  rcases Nat.le_total count count' with hle | hle
  · rw [Nat.min_eq_left (hmono (Nat.succ_le_succ hle))]
    refine ⟨count, rfl, .inl hhas, fun earlier hlt => not_or.mpr ⟨hnone earlier hlt, ?_⟩⟩
    exact hnone' earlier (by omega)
  · rw [Nat.min_eq_right (hmono (Nat.succ_le_succ hle))]
    refine ⟨count', rfl, .inr hhas', fun earlier hlt => not_or.mpr ⟨?_, hnone' earlier hlt⟩⟩
    exact hnone earlier (by omega)

/-! ### One way -/

section There

variable (hs : Outset start) (h : At start base ticket session) (hc : session.cursor = 0)
  (h' : At start base' ticket' here)

include hs h hc h'

/-- A way to breakpoints ends at the first visited position where one of them is hit, or at the end
of the trace. -/
theorem At.firstVisited_continueUntil (breakpoints : List Breakpoint) :
    here.EndsAt (.continueUntil breakpoints) (here.landing (.continueUntil breakpoints)) ∧
      here.FirstVisited
        (fun position => position = session.traceLength ∨ session.HitAt breakpoints position)
        (here.landing (.continueUntil breakpoints)) := by
  obtain ⟨hends, hfirst⟩ := h.firstVisited hs hc h' (.continueUntil breakpoints) rfl
  refine ⟨hends, hfirst.congr fun position => ?_⟩
  obtain ⟨hrange, hnode⟩ := h.view_readings hs position
  exact metAt_toBreakpoint_iff hrange hnode

/-- Breakpoints that are given together are met at the earlier one of the two positions where they
are met apart. -/
theorem At.landing_continueUntil_min {first second both : List Breakpoint}
    (hboth : ∀ breakpoint, breakpoint ∈ both ↔ breakpoint ∈ first ∨ breakpoint ∈ second) :
    here.landing (.continueUntil both)
      = min (here.landing (.continueUntil first)) (here.landing (.continueUntil second)) := by
  obtain ⟨-, hfirst⟩ := h.firstVisited_continueUntil hs hc h' first
  obtain ⟨-, hsecond⟩ := h.firstVisited_continueUntil hs hc h' second
  obtain ⟨-, hmet⟩ := h.firstVisited_continueUntil hs hc h' both
  refine hmet.unique ((hfirst.min (h'.monotone_visited hs) hsecond).congr fun position => ?_)
  rw [hitAt_iff_of_mem_iff hboth]
  exact or_or_distrib_left.symm

end There

/-! ### One way after the other -/

/-- A position before the end that steps over the source visit and where a breakpoint is hit. -/
def HitOnWay (session here : Session) (breakpoints : List Breakpoint) (position : Nat) : Prop :=
  position < session.traceLength ∧ session.HitAt breakpoints position ∧
    ∃ count, here.visited (count + 1) = position

section There

variable (hs : Outset start) (h : At start base ticket session) (hc : session.cursor = 0)

include hs h

theorem At.lt_of_visited (h' : At start base' ticket' here) {count : Nat}
    (hlt : here.visited (count + 1) < session.traceLength) :
    here.visited count < here.visited (count + 1) := by
  obtain ⟨⟨_, _, hthere⟩, -⟩ := At.obey hs (List.replicate count .stepNext) h'
  have hle := h'.monotone_visited hs (Nat.le_succ count)
  rw [visited_add here count 1, visited_one]
  exact At.lt_landing hs h hthere (Nat.lt_of_le_of_lt hle hlt) .stepNext

include hc

/-- Ways to the same breakpoints, one after the other, end at the visited positions where one of
them is hit, and then at the end of the trace. -/
theorem At.exists_hits (breakpoints : List Breakpoint) :
    ∀ {base' ticket' here}, At start base' ticket' here →
      ∃ hits : List Nat, hits.Pairwise (· < ·) ∧
        (∀ position, position ∈ hits ↔ session.HitOnWay here breakpoints position) ∧
        here.rests (List.replicate (hits.length + 1) (.continueUntil breakpoints))
          = hits.map (·, false) ++ [(session.traceLength, true)] := by
  refine h.exists_rests hs (fun here position => session.HitOnWay here breakpoints position) ?_ ?_
  · rintro base' ticket' here h' position ⟨hlt, -, count, rfl⟩
    have hle := h'.monotone_visited hs (Nat.zero_le count)
    exact Nat.lt_of_le_of_lt hle (At.lt_of_visited hs h h' hlt)
  · intro base' ticket' here h'
    obtain ⟨-, -, -, base'', ticket'', -, -, -, hnext, -⟩ :=
      h'.carryOut hs (.continueUntil breakpoints)
    obtain ⟨-, count, hvisited, hmet, hnone⟩ := h.firstVisited_continueUntil hs hc h' breakpoints
    have hmono := h'.monotone_visited hs
    -- before the way ends nothing is hit
    have hfrom : ∀ later, session.HitAt breakpoints (here.visited (later + 1)) → count ≤ later := by
      intro later hhit
      by_contra hlt
      exact hnone later (by omega) (.inr hhit)
    rcases Nat.eq_or_lt_of_le (At.landing_bounds hs h h' (.continueUntil breakpoints)).2 with
      hend | hbefore
    · refine .inl ⟨hend, ?_⟩
      rintro position ⟨hlt, hhit, later, rfl⟩
      have hle := hmono (Nat.add_le_add_right (hfrom later hhit) 1)
      rw [hvisited, hend] at hle
      omega
    · have hhit := hmet.resolve_left (Nat.ne_of_lt hbefore)
      have hforward : here.cursor < here.landing (.continueUntil breakpoints) := by
        rw [← hvisited] at hbefore ⊢
        exact Nat.lt_of_le_of_lt (hmono (Nat.zero_le count)) (At.lt_of_visited hs h h' hbefore)
      -- from there the same positions are visited
      have hrest : ∀ later, (here.carryOut (.continueUntil breakpoints)).1.visited later
          = here.visited (count + 1 + later) := by
        intro later
        obtain ⟨⟨_, _, hthere⟩, -⟩ := At.obey hs (List.replicate (count + 1) .stepNext) h'
        rw [visited_add]
        exact At.visited_congr hs later hnext hthere hvisited.symm
      refine .inr ⟨hforward, hbefore, fun position => ⟨?_, ?_⟩⟩
      · rintro ⟨hlt, hhit', later, rfl⟩
        rcases Nat.eq_or_lt_of_le (hfrom later hhit') with rfl | hlater
        · exact .inl hvisited
        · refine .inr ⟨hlt, hhit', later - (count + 1), ?_⟩
          rw [hrest]
          congr 1
          omega
      · rintro (rfl | ⟨hlt, hhit', later, rfl⟩)
        · exact ⟨hbefore, hhit, count, hvisited⟩
        · exact ⟨hlt, hhit', count + 1 + later, (hrest (later + 1)).symm⟩

end There

/-- **Ways to breakpoints choose among the visited positions.**  Whatever has been asked of a
session since it loaded a trace whose steps are processed, a way to breakpoints ends at the
first position that steps over the source visit and where one of them is hit in the current
frame, range and node, or else at the end of the trace.  Breakpoints of two lists together, in
any order and however often, are met at the earlier one of the two positions where the lists are
met apart.  Ways to the same breakpoints, one after the other, end at all visited positions
where one of them is hit, each once and in their order, and then at the end of the trace. -/
theorem continueUntil_visits (hl : Loaded origin) (hp : origin.Processes) (ho : Onward origin here)
    (hi : here.caller = .idle) (hw : here.store.tripwires = []) :
    here.VisitsUpTo origin.traceLength ∧
    (∀ breakpoints, ∃ position, here.EndsAt (.continueUntil breakpoints) position ∧
      here.FirstVisited (fun position => position = origin.traceLength ∨
        origin.HitAt breakpoints position) position) ∧
    (∀ first second both, (∀ breakpoint, breakpoint ∈ both ↔
        breakpoint ∈ first ∨ breakpoint ∈ second) →
      ∀ position position', here.EndsAt (.continueUntil first) position →
        here.EndsAt (.continueUntil second) position' →
          here.EndsAt (.continueUntil both) (min position position')) ∧
    ∀ breakpoints, ∃ hits : List Nat, hits.Pairwise (· < ·) ∧
      (∀ position, position ∈ hits ↔ origin.HitOnWay here breakpoints position) ∧
      here.rests (List.replicate (hits.length + 1) (.continueUntil breakpoints))
        = hits.map (·, false) ++ [(origin.traceLength, true)] := by
  obtain ⟨start, base₀, ticket₀, base, ticket, hs, hat₀, hcursor, hat⟩ :=
    ho.exists_both_at hl hp hi hw
  -- the visited positions, the first hit, two lists at once, and one command after the other
  refine ⟨hat₀.visits hs hat, fun breakpoints => ?_, ?_, fun breakpoints => ?_⟩
  · exact ⟨_, hat₀.firstVisited_continueUntil hs hcursor hat breakpoints⟩
  · rintro first second both hboth position position' ⟨-, rfl⟩ ⟨-, rfl⟩
    refine ⟨(hat₀.firstVisited_continueUntil hs hcursor hat both).1.1, ?_⟩
    exact hat₀.landing_continueUntil_min hs hcursor hat hboth
  · exact hat₀.exists_hits hs hcursor breakpoints hat

/-- Breakpoints on the second and on the third line of the nested run: ways to them end in the
function, and then on the last line. -/
theorem run_nested_continueUntil :
    nested.Processes ∧ nested.store.tripwires = [] ∧
      nested.landing (.continueUntil [{ line := some 2 }]) = 2 ∧
      nested.landing (.continueUntil [{ line := some 3 }]) = 5 := by
  decide +kernel

theorem nested_continueUntil_visits :
    Loaded nested ∧ nested.Processes ∧ Onward nested nested ∧ nested.caller = .idle ∧
      nested.store.tripwires = [] ∧
      nested.EndsAt
        (.continueUntil [{ line := some 3 }, { line := some 2 }, { line := some 3 }]) 2 ∧
      ∃ hits : List Nat, hits.Pairwise (· < ·) ∧
        (∀ position, position ∈ hits ↔
          nested.HitOnWay nested [{ line := some 2 }] position) ∧
        nested.rests (List.replicate (hits.length + 1) (.continueUntil [{ line := some 2 }]))
          = hits.map (·, false) ++ [(nested.traceLength, true)] := by
  obtain ⟨hprocesses, hwired, hsecond, hthird⟩ := run_nested_continueUntil
  obtain ⟨-, hends, hmin, hhits⟩ := continueUntil_visits loaded_nested hprocesses .origin
    loaded_nested.idle hwired
  refine ⟨loaded_nested, hprocesses, .origin, loaded_nested.idle, hwired, ?_, hhits _⟩
  obtain ⟨position, hends₂, -⟩ := hends [{ line := some 2 }]
  obtain ⟨position', hends₃, -⟩ := hends [{ line := some 3 }]
  -- the two breakpoints apart, and then together and one of them twice
  have hboth := hmin [{ line := some 2 }] [{ line := some 3 }]
    [{ line := some 3 }, { line := some 2 }, { line := some 3 }] ?_ position position' hends₂ hends₃
  · rwa [← hends₂.2, ← hends₃.2, hsecond, hthird] at hboth
  · intro breakpoint
    simp only [List.mem_cons, List.not_mem_nil, or_false]
    grind

/-- They end at both instructions of the function, and then at the end of the trace. -/
example : nested.rests (List.replicate 3 (.continueUntil [{ line := some 2 }]))
    = [(2, false), (3, false), (6, true)] := by
  decide +kernel

end TraceDebugger.Session
