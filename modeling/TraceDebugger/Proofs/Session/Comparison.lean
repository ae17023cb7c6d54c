/-
Which command ends first.

All walks from one position rest at the same places, so of two walks the one that goes on at fewer
of them ends first.

* `Purpose.Within` — a walk goes on only where another one does;
* `Runs.length_le` — it passes at most the steps of the other one;
* `landing_ordered` — where single commands end that are given in one state.
-/
import TraceDebugger.Proofs.Session.Ends

namespace TraceDebugger

/-- Wherever a walk of the first purpose is followed by another one, so is one of the second. -/
def Purpose.Within (first second : Purpose) : Prop :=
  ∀ bench : Workbench, bench.walksOn first = .ok true → bench.walksOn second = .ok true

namespace Purpose.Within

theorem refl (purpose : Purpose) : purpose.Within purpose := fun _ h => h

/-- A single walk is followed by no other. -/
theorem segment (purpose : Purpose) : Purpose.segment.Within purpose := by
  rintro bench ⟨⟩

/-- Whoever goes on to another line has not left the function. -/
theorem over_out (depth : Int) (start : Option SourceRange) :
    (Purpose.over depth start).Within (.out depth) := by
  intro bench h
  obtain ⟨range, -, h⟩ := exists_of_bind_eq_ok h
  have hboth := Except.ok.inj h
  rw [Bool.and_eq_true] at hboth
  exact congrArg Except.ok hboth.1

end Purpose.Within

namespace Workbench

variable {bench : Workbench} {first second : Purpose} {start : Option SourceRange}

/-- Where a walk is followed by another one, a walk that goes on more often is followed by one from
the same range. -/
theorem proceed_within (h : first.Within second) {more : Pursuit}
    (hm : bench.proceed (.walk start first) = .ok (some more)) :
    ∃ start', more = .walk start' first ∧
      bench.proceed (.walk start second) = .ok (some (.walk start' second)) := by
  cases proceed_walk_iff.mp hm with
  | passes hf hr => exact ⟨start, rfl, proceed_walk_iff.mpr (.passes hf hr)⟩
  | @again range hf hr hw hrange =>
    exact ⟨range, rfl, proceed_walk_iff.mpr (.again hf hr (h bench hw) hrange)⟩

/-- Of two walks from one range, the one that goes on at fewer places passes at most as many
steps. -/
theorem Runs.length_le (h : first.Within second) {blocks blocks' : List (List Event)}
    {reached reached' : Workbench} {fault fault' : Option Fault}
    (hfirst : Runs bench (.walk start first) blocks reached fault)
    (hsecond : Runs bench (.walk start second) blocks' reached' fault') :
    blocks.length ≤ blocks'.length := by
  -- both pass the same steps, for as long as the first goes on
  generalize hpursuit : Pursuit.walk start first = pursuit at hfirst
  have hpos := List.length_pos_iff.mpr hsecond.blocks_ne_nil
  induction hfirst generalizing start blocks' with
  | ended => exact hpos
  | failed => exact hpos
  | on hp hm _ ih =>
    subst hpursuit
    obtain ⟨start', rfl, hm'⟩ := proceed_within h hm
    cases hsecond with
    | ended hp' hn =>
      obtain rfl := Except.ok.inj (hp.symm.trans hp')
      cases hm'.symm.trans hn
    | failed hp' hf =>
      obtain rfl := Except.ok.inj (hp.symm.trans hp')
      cases hm'.symm.trans hf
    | on hp' hn hr =>
      obtain rfl := Except.ok.inj (hp.symm.trans hp')
      obtain rfl := Option.some.inj (Except.ok.inj (hm'.symm.trans hn))
      exact Nat.succ_le_succ (ih hr rfl (List.length_pos_iff.mpr hr.blocks_ne_nil))

/-- The pursuit of an order that is given at a range. -/
def pursuitOf (bench : Workbench) (range : Option SourceRange) : Order → Pursuit
  | .advance => .single
  | .stepNext => .walk range .segment
  | .stepInto =>
    .walk range (if bench.opIs Opcode.isJump then .segment
      else if range.any SourceRange.isMultiline then .over bench.functionDepth range
      else .into bench.functionDepth range)
  | .stepOver => .walk range (.over bench.functionDepth range)
  | .stepOut =>
    .walk range (if range.any SourceRange.isMultiline then .over bench.functionDepth range
      else .out bench.functionDepth)
  | .continueUntil breakpoints => .walk range (.toBreakpoint breakpoints)

theorem begin_order {range : Option SourceRange} (hrange : bench.range = .ok range)
    (order : Order) :
    bench.begin order.event order.command = .ok (bench.pursuitOf range order) := by
  have hseveral : bench.isMultiline = .ok (range.any SourceRange.isMultiline) := by
    rw [isMultiline, hrange]
    rfl
  have hwalk := walk_of_range hrange
  have hover : bench.stepOver = .ok (.walk range (.over bench.functionDepth range)) := by
    rw [stepOver, hrange]
    exact hwalk _
  -- a command asks whether the range has several lines, and some ask for the opcode first
  cases order with
  | advance => rfl
  | stepNext => exact hwalk _
  | stepOver => exact hover
  | stepInto =>
    show bench.stepInto = _
    rw [stepInto, hseveral, hover, hrange, pursuitOf]
    by_cases hj : bench.opIs Opcode.isJump
    · rw [if_pos hj, if_pos hj]
      exact hwalk _
    · rw [if_neg hj, if_neg hj]
      cases range.any SourceRange.isMultiline
      · exact hwalk _
      · rfl
  | stepOut =>
    show bench.stepOut = _
    rw [stepOut, hseveral, hover, pursuitOf]
    cases range.any SourceRange.isMultiline
    · exact hwalk _
    · rfl
  | continueUntil breakpoints => exact hwalk _

end Workbench

namespace Session

variable {start : Workbench} {base base₀ : Base} {ticket ticket₀ : Ticket}
  {origin here session : Session}

/-- The position at which an order ends. -/
def landing (session : Session) (order : Order) : Nat := (session.carryOut order).1.cursor

/-- An order lands as many steps further as its pursuit passes, but not past the end. -/
theorem At.exists_landing (h : At start base ticket session) (hs : Outset start)
    {range : Option SourceRange} (hrange : base.bench.range = .ok range) (order : Order) :
    ∃ blocks reached, base.bench.Runs (base.bench.pursuitOf range order) blocks reached none ∧
      session.landing order
        = min (base.bench.recording.cursor + blocks.length) base.bench.recording.steps.length := by
  obtain ⟨pursuit, blocks, reached, base', ticket', hbegin, hruns, -, hnext, hleft⟩ :=
    h.carryOut hs order
  obtain rfl := Except.ok.inj ((Workbench.begin_order hrange order).symm.trans hbegin)
  refine ⟨blocks, reached, hruns, ?_⟩
  obtain ⟨-, -, hcursor⟩ := h.poised.advanceBy hruns.advanceBy
  rw [landing, hnext.cursor_of_core hleft.core, hcursor]

theorem At.exists_passed (hs : Outset start) (h : At start base₀ ticket₀ origin)
    (h' : At start base ticket here) (order : Order) :
    ∃ passed, 0 < passed ∧ here.landing order = min (here.cursor + passed) origin.traceLength := by
  obtain ⟨range, -, -, hrange, -, -⟩ := (h'.processable hs).exists_readings h'.poised
  obtain ⟨blocks, reached, hruns, hlanding⟩ := h'.exists_landing hs hrange order
  rw [h.length_eq hs h' (Workbench.advanceBy_zero _), ← h'.cursor_eq] at hlanding
  exact ⟨blocks.length, List.length_pos_iff.mpr hruns.blocks_ne_nil, hlanding⟩

/-- An order lands between where it is given and the end. -/
theorem At.landing_bounds (hs : Outset start) (h : At start base₀ ticket₀ origin)
    (h' : At start base ticket here) (order : Order) :
    here.cursor ≤ here.landing order ∧ here.landing order ≤ origin.traceLength := by
  obtain ⟨passed, -, hlanding⟩ := At.exists_passed hs h h' order
  have hle := At.cursor_le hs h h'
  omega

/-- Before the end of the trace it goes forward. -/
theorem At.lt_landing (hs : Outset start) (h : At start base₀ ticket₀ origin)
    (h' : At start base ticket here) (hlt : here.cursor < origin.traceLength) (order : Order) :
    here.cursor < here.landing order := by
  obtain ⟨passed, hpos, hlanding⟩ := At.exists_passed hs h h' order
  omega

section Landings

variable (h : At start base ticket session) (hs : Outset start) {range : Option SourceRange}
  (hrange : base.bench.range = .ok range)

include h hs hrange

/-- No order lands before a single advance. -/
theorem At.advance_le (order : Order) : session.landing .advance ≤ session.landing order := by
  obtain ⟨blocks, reached, hruns, hlanding⟩ := h.exists_landing hs hrange .advance
  obtain ⟨blocks', reached', hruns', hlanding'⟩ := h.exists_landing hs hrange order
  have hpos := List.length_pos_iff.mpr hruns'.blocks_ne_nil
  have hone : blocks.length = 1 := by
    cases hruns with
    | ended _ _ => rfl
    | on _ hm _ => cases hm
  omega

/-- An order that walks lands no later than one that walks on wherever it does. -/
theorem At.landing_le {first second : Purpose} (hle : first.Within second) {order order' : Order}
    (hfirst : base.bench.pursuitOf range order = .walk range first)
    (hsecond : base.bench.pursuitOf range order' = .walk range second) :
    session.landing order ≤ session.landing order' := by
  obtain ⟨blocks, reached, hruns, hlanding⟩ := h.exists_landing hs hrange order
  obtain ⟨blocks', reached', hruns', hlanding'⟩ := h.exists_landing hs hrange order'
  rw [hfirst] at hruns
  rw [hsecond] at hruns'
  have := hruns.length_le hle hruns'
  omega

/-- Orders that walk alike land alike. -/
theorem At.landing_eq {purpose : Purpose} {order order' : Order}
    (hfirst : base.bench.pursuitOf range order = .walk range purpose)
    (hsecond : base.bench.pursuitOf range order' = .walk range purpose) :
    session.landing order = session.landing order' :=
  Nat.le_antisymm (h.landing_le hs hrange (.refl purpose) hfirst hsecond)
    (h.landing_le hs hrange (.refl purpose) hsecond hfirst)

end Landings

/-- Nobody waits and no interrupt is on its way: a session that has loaded a trace rests, as far
from its outset as its cursor tells. -/
theorem Onward.exists_both_at (hl : Loaded origin) (hp : origin.Processes) (ho : Onward origin here)
    (hi : here.caller = .idle) (hw : here.store.tripwires = []) :
    ∃ start base₀ ticket₀ base ticket, Outset start ∧ At start base₀ ticket₀ origin ∧
      origin.cursor = 0 ∧ At start base ticket here := by
  obtain ⟨start, base₀, ticket₀, hs, hat₀, hcursor, -⟩ := hl.outset hp
  obtain ⟨plain, harms, hplain⟩ := ho.exists_arms hs hat₀
  obtain ⟨base₁, ticket₁, hrest⟩ := hplain.exists_at (harms.caller ▸ hi)
  obtain ⟨base, hat⟩ := harms.at_of_unwired hrest hw
  exact ⟨start, base₀, ticket₀, base, ticket₁, hs, hat₀, hcursor, hat⟩

theorem Onward.exists_at (hl : Loaded origin) (hp : origin.Processes) (ho : Onward origin here)
    (hi : here.caller = .idle) (hw : here.store.tripwires = []) :
    ∃ start base ticket, Outset start ∧ At start base ticket here := by
  obtain ⟨start, -, -, base, ticket, hs, -, -, hat⟩ := ho.exists_both_at hl hp hi hw
  exact ⟨start, base, ticket, hs, hat⟩

/-- **The orders of one state end one after the other.**  Whatever has been asked of a session since
it loaded a trace whose steps are processed, of the orders that can be given next a single advance
ends first, then a step to the next place, then a step over and then a step out; a step to the next
place ends no later than a step into or than a way to breakpoints.  Where the source range of the
position spans several lines, a step out ends with a step over, and so does a step into unless the
instruction jumps. -/
theorem landing_ordered (hl : Loaded origin) (hp : origin.Processes) (ho : Onward origin here)
    (hi : here.caller = .idle) (hw : here.store.tripwires = []) :
    here.landing .advance ≤ here.landing .stepNext ∧
    here.landing .stepNext ≤ here.landing .stepOver ∧
    here.landing .stepOver ≤ here.landing .stepOut ∧
    here.landing .stepNext ≤ here.landing .stepInto ∧
    (∀ breakpoints, here.landing .stepNext ≤ here.landing (.continueUntil breakpoints)) ∧
    (here.bench.isMultiline = .ok true →
      here.landing .stepOut = here.landing .stepOver ∧
      (here.bench.opIs Opcode.isJump = false →
        here.landing .stepInto = here.landing .stepOver)) := by
  obtain ⟨start, base, ticket, hs, hat⟩ := ho.exists_at hl hp hi hw
  obtain ⟨range, -, -, hrange, -, -⟩ := (hat.processable hs).exists_readings hat.poised
  have hbench : here.bench = base.bench := by rw [hat.eq_rest]; rfl
  refine ⟨hat.advance_le hs hrange _, hat.landing_le hs hrange (.segment _) rfl rfl, ?_,
    hat.landing_le hs hrange (.segment _) rfl rfl,
    fun breakpoints => hat.landing_le hs hrange (.segment _) rfl rfl, fun hseveral => ?_⟩
  · -- a step out goes on like a step over, or until the function is left
    cases hany : range.any SourceRange.isMultiline with
    | true => exact hat.landing_le hs hrange (.refl _) rfl (by rw [Workbench.pursuitOf, hany]; rfl)
    | false =>
      exact hat.landing_le hs hrange (.over_out _ _) rfl (by rw [Workbench.pursuitOf, hany]; rfl)
  · rw [hbench, Workbench.isMultiline, hrange] at hseveral
    have hany : range.any SourceRange.isMultiline = true := Except.ok.inj hseveral
    refine ⟨hat.landing_eq hs hrange (by rw [Workbench.pursuitOf, hany]; rfl) rfl, fun hj => ?_⟩
    rw [hbench] at hj
    exact hat.landing_eq hs hrange (by rw [Workbench.pursuitOf, hany, hj]; rfl) rfl

/-- The program of the brief trace, the first instruction of which stands on two lines. -/
def spreadProgram : Program :=
  ⟨{ briefMap with
    entries := [⟨0, 9, 0, .regular, 0⟩, ⟨6, 3, 0, .into, 0⟩, ⟨10, 2, 0, .regular, 0⟩] },
    [(0, briefTree)]⟩

/-- A session that has loaded a run of its code. -/
def spread : Session :=
  ((new { fallback := some spreadProgram } none 1).perform (.load briefSteps none none)).1

theorem loaded_spread : Loaded spread := loaded_of_callTargets rfl _ _ _ _

theorem spread_landing_ordered :
    Loaded spread ∧ spread.Processes ∧ Onward spread spread ∧ spread.caller = .idle ∧
      spread.store.tripwires = [] ∧ spread.bench.isMultiline = .ok true ∧
      spread.bench.opIs Opcode.isJump = false ∧
      spread.landing .advance ≤ spread.landing .stepNext ∧
      spread.landing .stepOut = spread.landing .stepOver ∧
      spread.landing .stepInto = spread.landing .stepOver := by
  have hprocesses : spread.Processes := by decide +kernel
  have hwired : spread.store.tripwires = [] := by decide +kernel
  have hseveral : spread.bench.isMultiline = .ok true := by rfl
  have hjump : spread.bench.opIs Opcode.isJump = false := by decide +kernel
  obtain ⟨hadvance, -, -, -, -, hlines⟩ :=
    landing_ordered loaded_spread hprocesses .origin loaded_spread.idle hwired
  obtain ⟨hout, hinto⟩ := hlines hseveral
  exact ⟨loaded_spread, hprocesses, .origin, loaded_spread.idle, hwired, hseveral, hjump, hadvance,
    hout, hinto hjump⟩

end Session

end TraceDebugger
