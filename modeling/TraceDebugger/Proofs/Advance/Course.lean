/-
The course of a command, apart from the turns of a session.

A pursuit advances and looks where it has come to, until it is over (`Runs`) or a step cannot be
processed (`Stalls`).  It does one of the two, because the steps that remain get fewer
(`runs_or_stalls`).

* `advanceBy_add`, `advance_core` — advances in a row, and what they depend on;
* `Runs.advanceBy`, `Runs.passage` — a command that runs does nothing but advance, and publishes the
  events of the steps that it passes, each once;
* `Processable.exists_begin`, `Processable.runs` — if all steps can be processed, the positions can
  be read, and every command comes to its end without a fault;
* `OnCourse.advanceBy` — a workbench that is as far as its cursor tells is so after further
  advances.
-/
import TraceDebugger.Proofs.Advance.Sight

namespace TraceDebugger

namespace Recording

/-- The cursor after a step, or at the end of the trace. -/
theorem cursor_past (recording : Recording) :
    (if 1 < recording.remaining then recording.forward else recording.toEnd).cursor
      = min (recording.cursor + 1) recording.steps.length := by
  have hle := recording.cursor_le
  rw [remaining]
  split
  · have hlt : recording.cursor < recording.steps.length := by omega
    rw [forward, dif_pos hlt]
    show recording.cursor + 1 = _
    omega
  · show recording.steps.length = _
    omega

theorem steps_past (recording : Recording) :
    (if 1 < recording.remaining then recording.forward else recording.toEnd).steps
      = recording.steps := by
  split
  · rw [forward]
    split <;> rfl
  · rfl

theorem loaded_past (recording : Recording) :
    (if 1 < recording.remaining then recording.forward else recording.toEnd).loaded
      = recording.loaded := by
  split
  · rw [forward]
    split <;> rfl
  · rfl

theorem toEnd_eq_self {recording : Recording} (h : recording.remaining = 0) :
    recording.toEnd = recording := by
  obtain ⟨steps, cursor, loaded, addresses, hle⟩ := recording
  obtain rfl : cursor = steps.length := by
    have hz : steps.length - cursor = 0 := h
    omega
  rfl

end Recording

namespace Workbench

variable {bench : Workbench}

/-! ### Advances -/

/-- The workbench after some events by which a step is processed. -/
def past (bench : Workbench) (events : List Event) : Workbench := (bench.takeAll events).release

theorem passage_core (bench : Workbench) : bench.core.passage = bench.passage := rfl

theorem proceed_core (bench : Workbench) (pursuit : Pursuit) :
    bench.core.proceed pursuit = bench.proceed pursuit := rfl

theorem begin_core (bench : Workbench) (event : Event) (command : Command) :
    bench.core.begin event command = bench.begin event command := by
  cases command <;> rfl

theorem core_past (bench : Workbench) (events : List Event) :
    (bench.past events).core = bench.core.past events := rfl

theorem passage_congr {other : Workbench} (h : other.core = bench.core) :
    other.passage = bench.passage := by
  rw [← passage_core, h, passage_core]

theorem proceed_congr {other : Workbench} (h : other.core = bench.core) (pursuit : Pursuit) :
    other.proceed pursuit = bench.proceed pursuit := by
  rw [← proceed_core, h, proceed_core]

theorem begin_congr {other : Workbench} (h : other.core = bench.core) (event : Event)
    (command : Command) : other.begin event command = bench.begin event command := by
  rw [← begin_core, h, begin_core]

theorem core_past_congr {other : Workbench} (h : other.core = bench.core) (events : List Event) :
    (other.past events).core = (bench.past events).core := by
  rw [core_past, h, core_past]

theorem recording_congr {other : Workbench} (h : other.core = bench.core) :
    other.recording = bench.recording := by
  show other.core.recording = bench.core.recording
  rw [h]

theorem slices_congr {other : Workbench} (h : other.core = bench.core) :
    other.slices = bench.slices := by
  show other.core.slices = bench.core.slices
  rw [h]

theorem advance_of_passage {events : List Event} (h : bench.passage = .ok events) :
    bench.advance = .ok (bench.past events) := by
  rw [advance, h]
  rfl

/-- An advance depends on the core of a workbench only. -/
theorem advance_core (bench : Workbench) : bench.core.advance = bench.advance.map core := by
  rw [advance, advance, passage_core]
  cases bench.passage <;> rfl

/-- The workbench after some advances. -/
def advanceBy (bench : Workbench) : Nat → Except Fault Workbench
  | 0 => .ok bench
  | count + 1 => (bench.advanceBy count).bind advance

theorem advanceBy_zero (bench : Workbench) : bench.advanceBy 0 = .ok bench := rfl

theorem advanceBy_add (bench : Workbench) (first second : Nat) :
    bench.advanceBy (first + second)
      = (bench.advanceBy first).bind fun b => b.advanceBy second := by
  induction second with
  | zero =>
    show bench.advanceBy first = _
    cases bench.advanceBy first <;> rfl
  | succ second ih =>
    show (bench.advanceBy (first + second)).bind advance = _
    rw [ih]
    cases bench.advanceBy first <;> rfl

theorem advanceBy_core (bench : Workbench) (count : Nat) :
    bench.core.advanceBy count = (bench.advanceBy count).map core := by
  induction count with
  | zero => rfl
  | succ count ih =>
    rw [advanceBy, advanceBy, ih]
    cases bench.advanceBy count with
    | error fault => rfl
    | ok reached => exact advance_core reached

/-- Workbenches with the same core advance to workbenches with the same core. -/
theorem exists_advanceBy_congr {other reached : Workbench} {count : Nat}
    (h : other.core = bench.core) (ha : other.advanceBy count = .ok reached) :
    ∃ last, bench.advanceBy count = .ok last ∧ last.core = reached.core := by
  have hother := advanceBy_core other count
  rw [h, advanceBy_core, ha] at hother
  obtain ⟨last, hlast, hcore⟩ := exists_of_map_eq_ok hother
  exact ⟨last, hlast, hcore⟩

theorem advanceBy_succ_of_passage {events : List Event} (h : bench.passage = .ok events)
    (count : Nat) : bench.advanceBy (count + 1) = (bench.past events).advanceBy count := by
  have hone : bench.advanceBy 1 = .ok (bench.past events) := advance_of_passage h
  rw [Nat.add_comm, advanceBy_add, hone]
  rfl

/-- The events of a passage take the cursor past the step, and nothing else in the recording. -/
theorem recording_past {events : List Event} (h : bench.passage = .ok events) :
    (bench.past events).recording
      = if 1 < bench.recording.remaining then bench.recording.forward
        else bench.recording.toEnd := by
  have hclosing (slices : Slices) (hs : slices.recording = bench.recording) :
      (slices.after [bench.closing]).recording
        = if 1 < bench.recording.remaining then bench.recording.forward
          else bench.recording.toEnd := by
    rw [closing]
    split
    · rw [Slices.after_tock, hs]
    · rw [Slices.after_endOfTrace, hs]
  rw [passage] at h
  split at h
  case isTrue hr =>
    obtain ⟨found, hfound, rfl⟩ := exists_of_map_eq_ok h
    obtain ⟨lines, events, fault, -, hderived, hgather⟩ := bench.hearing_step
    cases fault with
    | some fault => rw [hgather] at hfound; cases hfound
    | none =>
      obtain rfl : events = found := Except.ok.inj (hgather.symm.trans hfound)
      -- what follows from a step leaves the recording alone, so the closing event moves the cursor
      show (bench.slices.after (.tick :: events ++ [bench.closing])).recording = _
      rw [Slices.after_append]
      exact hclosing _ (Slices.recording_after_derived hderived _)
  case isFalse hr =>
    obtain rfl := Except.ok.inj h
    have h1 : ¬ 1 < bench.recording.remaining := by omega
    rw [if_neg h1]
    rfl

/-- The workbench of a session between two steps. -/
structure Poised (bench : Workbench) : Prop where
  loaded : bench.recording.loaded = true
  order : bench.order = Session.slices
  held : bench.held = none

theorem Poised.congr (h : bench.Poised) {other : Workbench} (hc : other.core = bench.core) :
    other.Poised := by
  refine ⟨by rw [recording_congr hc, h.loaded], ?_, ?_⟩
  · show other.core.order = _
    rw [hc]
    exact h.order
  · show other.core.held = _
    rw [hc]
    exact h.held

theorem Poised.past (h : bench.Poised) {events : List Event} (hp : bench.passage = .ok events) :
    (bench.past events).Poised :=
  ⟨by rw [recording_past hp, Recording.loaded_past, h.loaded], h.order, rfl⟩

theorem cursor_past {events : List Event} (h : bench.passage = .ok events) :
    (bench.past events).recording.cursor
      = min (bench.recording.cursor + 1) bench.recording.steps.length := by
  rw [recording_past h, Recording.cursor_past]

theorem steps_past {events : List Event} (h : bench.passage = .ok events) :
    (bench.past events).recording.steps = bench.recording.steps := by
  rw [recording_past h, Recording.steps_past]

/-- At the end of the trace an advance announces the end and changes nothing. -/
theorem past_of_finished (h : bench.Poised) (hr : bench.recording.remaining = 0) :
    bench.past [.endOfTrace] = bench := by
  have hend := Recording.toEnd_eq_self hr
  obtain ⟨slices, order, programs, checksum, held, active, heard, lines⟩ := bench
  obtain ⟨recording, callStack, bindings, functionDepth⟩ := slices
  obtain rfl : held = none := h.held
  show Workbench.mk ⟨recording.toEnd, callStack, bindings, functionDepth⟩ order programs checksum
    none active heard lines = _
  rw [show recording.toEnd = recording from hend]

theorem passage_of_finished (hr : bench.recording.remaining = 0) :
    bench.passage = .ok [.endOfTrace] := by
  rw [passage, if_neg (by omega)]

theorem advance_of_finished (h : bench.Poised) (hr : bench.recording.remaining = 0) :
    bench.advance = .ok bench := by
  rw [advance_of_passage (passage_of_finished hr), past_of_finished h hr]

/-- Advances from a poised workbench leave it poised and move the cursor as far as they can. -/
theorem Poised.advanceBy (h : bench.Poised) {count : Nat} {reached : Workbench}
    (ha : bench.advanceBy count = .ok reached) :
    reached.Poised ∧ reached.recording.steps = bench.recording.steps ∧
      reached.recording.cursor
        = min (bench.recording.cursor + count) bench.recording.steps.length := by
  -- on the number of advances; the last one adds one to the cursor, unless it is at the end
  induction count generalizing reached with
  | zero =>
    obtain rfl := Except.ok.inj ha
    have hle := bench.recording.cursor_le
    exact ⟨h, rfl, by omega⟩
  | succ count ih =>
    obtain ⟨middle, hmiddle, ha⟩ := exists_of_bind_eq_ok ha
    obtain ⟨hpoised, hsteps, hcursor⟩ := ih hmiddle
    obtain ⟨events, hp, rfl⟩ := exists_of_map_eq_ok ha
    refine ⟨hpoised.past hp, ?_, ?_⟩
    · exact (steps_past hp).trans hsteps
    · refine (cursor_past hp).trans ?_
      rw [hsteps, hcursor]
      omega

/-! ### Pursuits -/

/-- How a walk goes on after an advance. -/
inductive Proceeds (bench : Workbench) (start : Option SourceRange) (purpose : Purpose) :
    Option Pursuit → Prop
  | finished (hf : bench.finished = true) : Proceeds bench start purpose none
  | passes (hf : bench.finished = false) (hr : bench.restsFrom start = .ok false) :
      Proceeds bench start purpose (some (.walk start purpose))
  | ends (hf : bench.finished = false) (hr : bench.restsFrom start = .ok true)
      (hw : bench.walksOn purpose = .ok false) : Proceeds bench start purpose none
  | again {range} (hf : bench.finished = false) (hr : bench.restsFrom start = .ok true)
      (hw : bench.walksOn purpose = .ok true) (hrange : bench.range = .ok range) :
      Proceeds bench start purpose (some (.walk range purpose))

theorem proceed_walk_iff {start : Option SourceRange} {purpose : Purpose}
    {next : Option Pursuit} :
    bench.proceed (.walk start purpose) = .ok next ↔ bench.Proceeds start purpose next := by
  constructor
  · intro h
    rw [proceed] at h
    -- the questions that a walk asks in turn: is the trace over, does it rest, does it go on
    by_cases hf : bench.finished = true
    · rw [if_pos hf] at h
      obtain rfl := Except.ok.inj h
      exact .finished hf
    · rw [if_neg hf] at h
      have hf := Bool.eq_false_iff.mpr hf
      obtain ⟨rests, hrests, h⟩ := exists_of_bind_eq_ok h
      cases rests with
      | false =>
        obtain rfl := Except.ok.inj h
        exact .passes hf hrests
      | true =>
        obtain ⟨goes, hgoes, h⟩ := exists_of_bind_eq_ok h
        cases goes with
        | false =>
          obtain rfl := Except.ok.inj h
          exact .ends hf hrests hgoes
        | true =>
          obtain ⟨more, hmore, h⟩ := exists_of_bind_eq_ok h
          obtain ⟨range, hrange, rfl⟩ := exists_of_map_eq_ok hmore
          obtain rfl := Except.ok.inj h
          exact .again hf hrests hgoes hrange
  · rintro (hf | ⟨hf, hr⟩ | ⟨hf, hr, hw⟩ | ⟨hf, hr, hw, hrange⟩)
    · rw [proceed, if_pos hf]
      rfl
    · rw [proceed, hf, hr]
      rfl
    · rw [proceed, hf, hr, hw]
      rfl
    · rw [proceed, hf, hr, hw, walk, hrange]
      rfl

/-- A pursuit comes to its end, perhaps by a fault in looking where it has come to: the events of
each step that it passes, and the workbench that it leaves. -/
inductive Runs : Workbench → Pursuit → List (List Event) → Workbench → Option Fault → Prop
  | ended {bench pursuit events} (h : bench.passage = .ok events)
      (hn : (bench.past events).proceed pursuit = .ok none) :
      Runs bench pursuit [events] (bench.past events) none
  | failed {bench pursuit events fault} (h : bench.passage = .ok events)
      (hf : (bench.past events).proceed pursuit = .error fault) :
      Runs bench pursuit [events] (bench.past events) (some fault)
  | on {bench pursuit events more blocks reached fault} (h : bench.passage = .ok events)
      (hm : (bench.past events).proceed pursuit = .ok (some more))
      (hr : Runs (bench.past events) more blocks reached fault) :
      Runs bench pursuit (events :: blocks) reached fault

/-- A pursuit comes to a step that cannot be processed. -/
inductive Stalls : Workbench → Pursuit → Fault → Prop
  | here {bench pursuit fault} (h : bench.passage = .error fault) : Stalls bench pursuit fault
  | on {bench pursuit events more fault} (h : bench.passage = .ok events)
      (hm : (bench.past events).proceed pursuit = .ok (some more))
      (hs : Stalls (bench.past events) more fault) : Stalls bench pursuit fault

/-- Whoever goes on after an advance is not at the end of the trace. -/
theorem remaining_pos_of_proceed {pursuit more : Pursuit} (hl : bench.recording.loaded = true)
    (h : bench.proceed pursuit = .ok (some more)) : 0 < bench.recording.remaining := by
  cases pursuit with
  | single => cases h
  | walk start purpose =>
    rw [proceed] at h
    by_cases hf : bench.finished
    · rw [if_pos hf] at h
      cases h
    · rw [finished, Recording.finished, hl, Bool.true_and, decide_eq_true_iff] at hf
      rw [Recording.remaining]
      omega

/-- A pursuit comes to its end or to a step that cannot be processed. -/
theorem runs_or_stalls (h : bench.Poised) (pursuit : Pursuit) :
    (∃ blocks reached fault, Runs bench pursuit blocks reached fault) ∨
      ∃ fault, Stalls bench pursuit fault := by
  -- each advance that is followed by another one leaves fewer steps
  induction hn : bench.recording.remaining using Nat.strongRecOn generalizing bench pursuit with
  | _ n ih =>
    cases hp : bench.passage with
    | error fault => exact .inr ⟨fault, .here hp⟩
    | ok events =>
      cases hq : (bench.past events).proceed pursuit with
      | error fault => exact .inl ⟨_, _, _, .failed hp hq⟩
      | ok next =>
        cases next with
        | none => exact .inl ⟨_, _, _, .ended hp hq⟩
        | some more =>
          have hpos := remaining_pos_of_proceed (h.past hp).loaded hq
          have hless : (bench.past events).recording.remaining < n := by
            rw [Recording.remaining, cursor_past hp, steps_past hp] at hpos ⊢
            rw [Recording.remaining] at hn
            omega
          rcases ih _ hless (h.past hp) more rfl with ⟨blocks, reached, fault, hr⟩ | ⟨fault, hs⟩
          · exact .inl ⟨_, _, _, .on hp hq hr⟩
          · exact .inr ⟨fault, .on hp hq hs⟩

namespace Runs

variable {pursuit : Pursuit} {blocks : List (List Event)} {reached : Workbench}
  {fault : Option Fault}

/-- A pursuit that comes to its end does nothing but advance. -/
theorem advanceBy (h : Runs bench pursuit blocks reached fault) :
    bench.advanceBy blocks.length = .ok reached := by
  induction h with
  | ended h _ => exact advance_of_passage h
  | failed h _ => exact advance_of_passage h
  | on h _ _ ih => exact (advanceBy_succ_of_passage h _).trans ih

/-- It publishes the events of the steps that it passes. -/
theorem passage (h : Runs bench pursuit blocks reached fault) {i : Nat} {events : List Event}
    (hi : blocks[i]? = some events) :
    ∃ there, bench.advanceBy i = .ok there ∧ there.passage = .ok events := by
  induction h generalizing i with
  | @ended bench pursuit _ h _ =>
    cases i with
    | zero => exact ⟨bench, rfl, by rw [h, Option.some.inj hi]⟩
    | succ i => cases hi
  | @failed bench pursuit _ _ h _ =>
    cases i with
    | zero => exact ⟨bench, rfl, by rw [h, Option.some.inj hi]⟩
    | succ i => cases hi
  | @on bench pursuit first more blocks reached fault h _ _ ih =>
    cases i with
    | zero => exact ⟨bench, rfl, by rw [h, Option.some.inj hi]⟩
    | succ i =>
      obtain ⟨there, hthere, hp⟩ := ih hi
      exact ⟨there, (advanceBy_succ_of_passage h i).trans hthere, hp⟩

theorem blocks_ne_nil (h : Runs bench pursuit blocks reached fault) : blocks ≠ [] := by
  cases h <;> exact List.cons_ne_nil _ _

/-- It passes one step after the other, or announces the end of the trace once. -/
theorem length_blocks (h : Runs bench pursuit blocks reached fault) (hb : bench.Poised) :
    blocks.length = 1 ∨ bench.recording.cursor + blocks.length ≤ bench.recording.steps.length := by
  induction h with
  | ended _ _ => exact .inl rfl
  | failed _ _ => exact .inl rfl
  | @on bench pursuit events more blocks reached fault h hm hr ih =>
    have hpos := remaining_pos_of_proceed (hb.past h).loaded hm
    have hrest := ih (hb.past h)
    rw [Recording.remaining] at hpos
    rw [cursor_past h, steps_past h] at hpos hrest
    rw [List.length_cons]
    right
    omega

end Runs

/-- Where a pursuit comes to its end, and what it publishes, is settled by the core alone. -/
theorem Runs.eq_of_core {pursuit : Pursuit} {blocks blocks' : List (List Event)}
    {reached reached' : Workbench} {fault fault' : Option Fault}
    (h : Runs bench pursuit blocks reached fault) :
    ∀ {other : Workbench}, other.core = bench.core →
      Runs other pursuit blocks' reached' fault' →
        blocks' = blocks ∧ reached'.core = reached.core ∧ fault' = fault := by
  -- on the run of one workbench; in step with it, the other one can only end, fail or go on alike
  induction h generalizing blocks' with
  | ended hp hn =>
    intro other hc h'
    have hpassage := (Workbench.passage_congr hc).trans hp
    have hnext := (proceed_congr (core_past_congr hc _) _).trans hn
    cases h' with
    | ended hp' _ =>
      obtain rfl := Except.ok.inj (hpassage.symm.trans hp')
      exact ⟨rfl, core_past_congr hc _, rfl⟩
    | failed hp' hf' =>
      obtain rfl := Except.ok.inj (hpassage.symm.trans hp')
      cases hnext.symm.trans hf'
    | on hp' hm' _ =>
      obtain rfl := Except.ok.inj (hpassage.symm.trans hp')
      cases hnext.symm.trans hm'
  | failed hp hf =>
    intro other hc h'
    have hpassage := (Workbench.passage_congr hc).trans hp
    have hnext := (proceed_congr (core_past_congr hc _) _).trans hf
    cases h' with
    | ended hp' hn' =>
      obtain rfl := Except.ok.inj (hpassage.symm.trans hp')
      cases hnext.symm.trans hn'
    | failed hp' hf' =>
      obtain rfl := Except.ok.inj (hpassage.symm.trans hp')
      obtain rfl := Except.error.inj (hnext.symm.trans hf')
      exact ⟨rfl, core_past_congr hc _, rfl⟩
    | on hp' hm' _ =>
      obtain rfl := Except.ok.inj (hpassage.symm.trans hp')
      cases hnext.symm.trans hm'
  | on hp hm _ ih =>
    intro other hc h'
    have hpassage := (Workbench.passage_congr hc).trans hp
    have hnext := (proceed_congr (core_past_congr hc _) _).trans hm
    cases h' with
    | ended hp' hn' =>
      obtain rfl := Except.ok.inj (hpassage.symm.trans hp')
      cases hnext.symm.trans hn'
    | failed hp' hf' =>
      obtain rfl := Except.ok.inj (hpassage.symm.trans hp')
      cases hnext.symm.trans hf'
    | on hp' hm' hr' =>
      obtain rfl := Except.ok.inj (hpassage.symm.trans hp')
      obtain rfl := Option.some.inj (Except.ok.inj (hnext.symm.trans hm'))
      obtain ⟨rfl, hreached, hfault⟩ := ih (core_past_congr hc _) hr'
      exact ⟨rfl, hreached, hfault⟩

/-- A pursuit that comes to its end does not come to a step that cannot be processed. -/
theorem Runs.not_stalls {pursuit : Pursuit} {blocks : List (List Event)} {reached : Workbench}
    {fault : Option Fault} (h : Runs bench pursuit blocks reached fault) (stall : Fault) :
    ¬ Stalls bench pursuit stall := by
  -- on the pursuit; each advance has one outcome only
  induction h with
  | ended hp hn =>
    rintro (hs | ⟨hp', hm, -⟩)
    · cases hp.symm.trans hs
    · obtain rfl := Except.ok.inj (hp.symm.trans hp')
      cases hn.symm.trans hm
  | failed hp hf =>
    rintro (hs | ⟨hp', hm, -⟩)
    · cases hp.symm.trans hs
    · obtain rfl := Except.ok.inj (hp.symm.trans hp')
      cases hf.symm.trans hm
  | on hp hm _ ih =>
    rintro (hs | ⟨hp', hm', hrest⟩)
    · cases hp.symm.trans hs
    · obtain rfl := Except.ok.inj (hp.symm.trans hp')
      obtain rfl := Option.some.inj (Except.ok.inj (hm.symm.trans hm'))
      exact ih hrest

/-! ### Readings -/

theorem sight_hold (h : bench.held = none) : bench.hold.sight = bench.sight := by
  rw [sight, sight, ownerFrame, ownerFrame, h]
  rfl

/-- A step that can be processed tells its jump. -/
theorem exists_jump (h : bench.Poised) {events : List Event} (hp : bench.passage = .ok events)
    (hr : 0 < bench.recording.remaining) : ∃ jump, bench.jump = .ok jump := by
  rw [passage, if_pos hr] at hp
  obtain ⟨found, hfound, -⟩ := exists_of_map_eq_ok hp
  -- the jump is read with the frame held, which makes no difference
  rw [consequences, ← gather_sight, sight_hold h.held, gather_sight] at hfound
  obtain ⟨jumps, hjumps, -⟩ := exists_of_bind_eq_ok hfound
  obtain ⟨jump, hjump, -⟩ := exists_of_map_eq_ok hjumps
  exact ⟨jump, hjump⟩

/-- Whoever can tell the jump of a step can tell its range, its tree and its node. -/
theorem exists_readings_of_jump {jump : Jump} (h : bench.jump = .ok jump) :
    ∃ range tree node, bench.range = .ok range ∧ bench.tree = .ok tree ∧ bench.node = .ok node := by
  rw [Workbench.jump] at h
  obtain ⟨program, hprogram, h⟩ := exists_of_bind_eq_ok h
  -- the jump and the range are found in the same entry of the map
  obtain ⟨range, hrange⟩ : ∃ range, bench.range = .ok range := by
    rw [Workbench.range, hprogram]
    cases hstep : bench.step with
    | none => exact ⟨none, rfl⟩
    | some step =>
      cases program with
      | none => exact ⟨none, rfl⟩
      | some program =>
        rw [hstep] at h
        obtain ⟨entry, hentry, -⟩ := exists_of_map_eq_ok h
        exact ⟨entry.map program.map.rangeOf, by
          show (program.map.entryAt step.pc).map _ = _
          rw [hentry]
          rfl⟩
  obtain ⟨tree, htree⟩ : ∃ tree, bench.tree = .ok tree := by
    rw [Workbench.tree, hprogram, hrange]
    cases program <;> exact ⟨_, rfl⟩
  obtain ⟨node, hnode⟩ : ∃ node, bench.node = .ok node := by
    rw [Workbench.node, hrange, htree]
    cases range <;> cases tree <;> exact ⟨_, rfl⟩
  exact ⟨range, tree, node, hrange, htree, hnode⟩

/-- At the end of the trace there is no step to read, and no reading fails. -/
theorem exists_jump_of_finished (hr : bench.recording.remaining = 0) :
    bench.jump = .ok .regular := by
  have hstep : bench.step = none := by
    rw [step, Recording.nextStep, List.getElem?_eq_none_iff]
    rw [Recording.remaining] at hr
    omega
  rw [Workbench.jump, Workbench.program, hstep]
  rfl

/-- The step under the cursor and all that follow can be processed. -/
def Processable (bench : Workbench) : Prop :=
  ∀ count, ∃ reached, bench.advanceBy count = .ok reached

theorem advanceBy_of_finished (h : bench.Poised) (hr : bench.recording.remaining = 0)
    (count : Nat) :
    bench.advanceBy count = .ok bench := by
  induction count with
  | zero => rfl
  | succ count ih =>
    rw [advanceBy, ih]
    exact advance_of_finished h hr

/-- Advances past the end of the trace change nothing. -/
theorem advanceBy_min (h : bench.Poised) {count : Nat} {last : Workbench}
    (ha : bench.advanceBy count = .ok last) :
    bench.advanceBy (min count bench.recording.remaining) = .ok last := by
  by_cases hle : count ≤ bench.recording.remaining
  · rwa [Nat.min_eq_left hle]
  · -- the trace is over after the steps that remain
    have hcount : bench.recording.remaining + (count - bench.recording.remaining) = count := by
      omega
    rw [← hcount, advanceBy_add] at ha
    obtain ⟨middle, hmiddle, hlast⟩ := exists_of_bind_eq_ok ha
    obtain ⟨hpoised, hsteps, hcursor⟩ := h.advanceBy hmiddle
    have hle' := bench.recording.cursor_le
    have hend : middle.recording.remaining = 0 := by
      rw [Recording.remaining] at hcursor ⊢
      rw [hsteps, hcursor]
      omega
    rw [advanceBy_of_finished hpoised hend] at hlast
    rw [Nat.min_eq_right (by omega), hmiddle, Except.ok.inj hlast]

/-- It is enough that the steps that remain can be processed. -/
theorem processable_of_advanceBy (h : bench.Poised) {count : Nat} {reached : Workbench}
    (ha : bench.advanceBy count = .ok reached) (hc : bench.recording.remaining ≤ count) :
    bench.Processable := by
  intro other
  by_cases hle : other ≤ count
  · rw [← Nat.add_sub_of_le hle, advanceBy_add] at ha
    obtain ⟨middle, hmiddle, -⟩ := exists_of_bind_eq_ok ha
    exact ⟨middle, hmiddle⟩
  · obtain ⟨hpoised, hsteps, hcursor⟩ := h.advanceBy ha
    -- these advances lead to the end of the trace, where more of them change nothing
    have hend : reached.recording.remaining = 0 := by
      rw [Recording.remaining, hsteps, hcursor]
      rw [Recording.remaining] at hc
      omega
    have hother : count + (other - count) = other := by omega
    refine ⟨reached, ?_⟩
    rw [← hother, advanceBy_add, ha]
    exact advanceBy_of_finished hpoised hend _

theorem Processable.past (h : bench.Processable) {events : List Event}
    (hp : bench.passage = .ok events) : (bench.past events).Processable := by
  intro count
  obtain ⟨reached, hreached⟩ := h (count + 1)
  exact ⟨reached, (advanceBy_succ_of_passage hp count).symm.trans hreached⟩

theorem Processable.advanceBy (h : bench.Processable) {count : Nat} {there : Workbench}
    (ha : bench.advanceBy count = .ok there) : there.Processable := by
  intro more
  obtain ⟨reached, hreached⟩ := h (count + more)
  rw [advanceBy_add, ha] at hreached
  exact ⟨reached, hreached⟩

theorem Processable.exists_passage (h : bench.Processable) :
    ∃ events, bench.passage = .ok events := by
  obtain ⟨reached, hreached⟩ := h 1
  obtain ⟨events, hp, -⟩ := exists_of_map_eq_ok hreached
  exact ⟨events, hp⟩

/-- If the steps can be processed, the position under the cursor can be read. -/
theorem Processable.exists_readings (h : bench.Processable) (hb : bench.Poised) :
    ∃ range tree node, bench.range = .ok range ∧ bench.tree = .ok tree ∧ bench.node = .ok node := by
  obtain ⟨events, hp⟩ := h.exists_passage
  by_cases hr : 0 < bench.recording.remaining
  · obtain ⟨jump, hjump⟩ := exists_jump hb hp hr
    exact exists_readings_of_jump hjump
  · exact exists_readings_of_jump (exists_jump_of_finished (by omega))

theorem exists_restsFrom {range : Option SourceRange} {node : Option Node}
    (hrange : bench.range = .ok range) (hnode : bench.node = .ok node)
    (start : Option SourceRange) :
    ∃ rests, bench.restsFrom start = .ok rests := by
  rw [restsFrom, hnode, hrange]
  exact ⟨_, rfl⟩

theorem exists_walksOn {range : Option SourceRange} {node : Option Node}
    (hrange : bench.range = .ok range) (hnode : bench.node = .ok node) (purpose : Purpose) :
    ∃ goes, bench.walksOn purpose = .ok goes := by
  cases purpose with
  | segment => exact ⟨_, rfl⟩
  | out depth => exact ⟨_, rfl⟩
  | toBreakpoint breakpoints => rw [walksOn, hrange, hnode]; exact ⟨_, rfl⟩
  | _ => rw [walksOn, hrange]; exact ⟨_, rfl⟩

theorem walk_of_range {range : Option SourceRange} (hrange : bench.range = .ok range)
    (purpose : Purpose) : bench.walk purpose = .ok (.walk range purpose) := by
  rw [walk, hrange]
  rfl

/-- If the steps can be processed, a pursuit knows how to go on. -/
theorem Processable.exists_proceed (h : bench.Processable) (hb : bench.Poised) (pursuit : Pursuit) :
    ∃ next, bench.proceed pursuit = .ok next := by
  obtain ⟨range, tree, node, hrange, -, hnode⟩ := h.exists_readings hb
  cases pursuit with
  | single => exact ⟨none, rfl⟩
  | walk start purpose =>
    obtain ⟨rests, hrests⟩ := exists_restsFrom hrange hnode start
    obtain ⟨goes, hgoes⟩ := exists_walksOn hrange hnode purpose
    rw [proceed, hrests, hgoes, walk_of_range hrange]
    split
    · exact ⟨none, rfl⟩
    · cases rests <;> cases goes <;> exact ⟨_, rfl⟩

/-- If the steps can be processed, a pursuit comes to its end without a fault. -/
theorem Processable.runs (h : bench.Processable) (hb : bench.Poised) (pursuit : Pursuit) :
    ∃ blocks reached, Runs bench pursuit blocks reached none := by
  rcases runs_or_stalls hb pursuit with ⟨blocks, reached, fault, hr⟩ | ⟨fault, hs⟩
  · -- it may come to a fault of its own, or to a step that fails; neither is so on this trace
    induction hr with
    | ended hp hn => exact ⟨_, _, .ended hp hn⟩
    | failed hp hf =>
      obtain ⟨next, hnext⟩ := (h.past hp).exists_proceed (hb.past hp) _
      rw [hnext] at hf
      cases hf
    | on hp hm _ ih =>
      obtain ⟨blocks, reached, hr⟩ := ih (h.past hp) (hb.past hp)
      exact ⟨_, _, .on hp hm hr⟩
  · induction hs with
    | here hp =>
      obtain ⟨events, hevents⟩ := h.exists_passage
      rw [hevents] at hp
      cases hp
    | on hp hm _ ih =>
      obtain ⟨blocks, reached, hr⟩ := ih (h.past hp) (hb.past hp)
      exact ⟨_, _, .on hp hm hr⟩

/-- If the steps can be processed, a command can begin. -/
theorem Processable.exists_begin (h : bench.Processable) (hb : bench.Poised) (event : Event)
    (command : Command) (he : command = .continueUntil → event.payload.breakpoints.isSome) :
    ∃ pursuit, bench.begin event command = .ok pursuit := by
  obtain ⟨range, tree, node, hrange, -, hnode⟩ := h.exists_readings hb
  have hwalk := walk_of_range hrange
  have hover : bench.stepOver = .ok (.walk range (.over bench.functionDepth range)) := by
    rw [stepOver, hrange]
    exact hwalk _
  obtain ⟨several, hseveral⟩ : ∃ several, bench.isMultiline = .ok several := by
    rw [isMultiline, hrange]
    exact ⟨_, rfl⟩
  -- apart from the advance, every command begins with a walk from the range of the step
  cases command with
  | advance => exact ⟨_, rfl⟩
  | stepNext => exact ⟨_, hwalk _⟩
  | stepOver => exact ⟨_, hover⟩
  | stepInto =>
    show ∃ pursuit, bench.stepInto = .ok pursuit
    rw [stepInto, hseveral, hover, hrange, hwalk .segment]
    split
    · exact ⟨_, rfl⟩
    · cases several
      · exact ⟨_, hwalk _⟩
      · exact ⟨_, rfl⟩
  | stepOut =>
    show ∃ pursuit, bench.stepOut = .ok pursuit
    rw [stepOut, hseveral, hover, hwalk]
    cases several <;> exact ⟨_, rfl⟩
  | continueUntil =>
    -- only here does the event have to carry something
    obtain ⟨breakpoints, hbreakpoints⟩ := Option.isSome_iff_exists.mp (he rfl)
    show ∃ pursuit, (Event.need "breakpoints" event.payload.breakpoints >>= fun breakpoints =>
      bench.walk (.toBreakpoint breakpoints)) = .ok pursuit
    rw [hbreakpoints]
    exact ⟨_, hwalk _⟩

/-! ### Courses -/

/-- A workbench is as many advances away from its start as its cursor tells. -/
def OnCourse (start bench : Workbench) : Prop :=
  ∃ reached, start.advanceBy bench.recording.cursor = .ok reached ∧ reached.core = bench.core

variable {start : Workbench}

theorem OnCourse.congr (h : start.OnCourse bench) {other : Workbench}
    (hc : other.core = bench.core) : start.OnCourse other := by
  obtain ⟨reached, hreached, hcore⟩ := h
  refine ⟨reached, ?_, hcore.trans hc.symm⟩
  rw [recording_congr hc]
  exact hreached

/-- Workbenches that are equally far have the same core. -/
theorem OnCourse.core_eq (h : start.OnCourse bench) {other : Workbench} (h' : start.OnCourse other)
    (hc : bench.recording.cursor = other.recording.cursor) : bench.core = other.core := by
  obtain ⟨reached, hreached, hcore⟩ := h
  obtain ⟨reached', hreached', hcore'⟩ := h'
  rw [hc, hreached'] at hreached
  obtain rfl := Except.ok.inj hreached
  exact hcore.symm.trans hcore'

theorem OnCourse.processable (h : start.OnCourse bench) (hp : start.Processable) :
    bench.Processable := by
  obtain ⟨reached, hreached, hcore⟩ := h
  intro count
  obtain ⟨last, hlast⟩ := hp (bench.recording.cursor + count)
  rw [advanceBy_add, hreached] at hlast
  obtain ⟨last', hlast', -⟩ := exists_advanceBy_congr hcore hlast
  exact ⟨last', hlast'⟩

/-- Further advances lead to where the cursor tells. -/
theorem OnCourse.advanceBy (h : start.OnCourse bench) (hb : bench.Poised) {count : Nat}
    {last : Workbench} (hlast : bench.advanceBy count = .ok last) : start.OnCourse last := by
  obtain ⟨reached, hreached, hcore⟩ := h
  -- the advances past the end change nothing, and the others add up
  have hwithin := advanceBy_min hb hlast
  obtain ⟨-, -, hcursor⟩ := hb.advanceBy hwithin
  have hle := bench.recording.cursor_le
  rw [Recording.remaining] at hcursor hwithin
  rw [Nat.min_eq_left (by omega)] at hcursor
  obtain ⟨last', hlast', hcore'⟩ := exists_advanceBy_congr hcore.symm hwithin
  refine ⟨last', ?_, hcore'⟩
  rw [hcursor, advanceBy_add, hreached]
  exact hlast'

theorem OnCourse.past (h : start.OnCourse bench) (hb : bench.Poised) {events : List Event}
    (hp : bench.passage = .ok events) : start.OnCourse (bench.past events) :=
  have hone : bench.advanceBy 1 = .ok (bench.past events) := advance_of_passage hp
  h.advanceBy hb hone

end Workbench

end TraceDebugger
