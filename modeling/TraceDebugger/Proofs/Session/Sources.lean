/-
Resting places and the sources that they lie in.

A command that walks over the source rests at an instruction that has an entry in the map of its
program, unless its node is a contract.  It does not look whether the entry lies in one of the
sources of the program: code that the compiler has generated has entries outside of them all, whose
ranges have no lines, and walks rest there as they rest elsewhere.

* `line_pos_iff` — the range of an entry has lines exactly if the entry lies in one of the sources;
* `stoppable_iff` — a session can stop where the instruction has an entry;
* `At.stoppable_landing` — a walk ends at the end of the trace or where the session can stop;
* `At.landing_stepNext` — a step over the source ends at the first such place that differs;
* `walks_rest` — where commands rest, and what they make of generated code.
-/
import TraceDebugger.Proofs.Session.Owner
import TraceDebugger.Proofs.Session.Visits

namespace TraceDebugger

/-! ### Entries and their lines -/

/-- Every offset of a text is on a line. -/
theorem LineIndex.line_pos (source : String) (offset : Int) :
    0 < ((LineIndex.ofSource source).position offset).line := by
  have hfirst : (decide <| 0 ≤ (LineIndex.ofSource source).clamp offset) = true :=
    decide_eq_true (Nat.zero_le _)
  have hline : ((LineIndex.ofSource source).position offset).line
      = (((startsAfter 0 source.toList).takeWhile
          (fun start => decide <| start ≤ (LineIndex.ofSource source).clamp offset)).length + 1) := by
    show (List.takeWhile _ (0 :: _)).length = _
    rw [List.takeWhile_cons, if_pos hfirst]
    rfl
  exact hline ▸ Nat.succ_pos _

namespace ProgramMap

variable {map : ProgramMap} {entry : MapEntry}

/-- An entry lies in one of the sources of a map. -/
def Knows (map : ProgramMap) (entry : MapEntry) : Prop :=
  0 ≤ entry.fileIndex ∧ entry.fileIndex < map.sources.length

instance (map : ProgramMap) (entry : MapEntry) : Decidable (map.Knows entry) :=
  inferInstanceAs (Decidable (_ ∧ _))

/-- The sources of a map are those of some texts. -/
def Indexed (map : ProgramMap) : Prop := ∀ index ∈ map.sources, ∃ source, index = .ofSource source

theorem fileIndex_rangeOf (map : ProgramMap) (entry : MapEntry) :
    (map.rangeOf entry).fileIndex = entry.fileIndex := by
  rw [rangeOf]
  split
  · rfl
  · split <;> rfl

/-- The range of an entry in a source begins and ends where the index of the source says. -/
theorem exists_rangeOf (h : map.Knows entry) :
    ∃ index ∈ map.sources, map.rangeOf entry
      = index.range entry.offset entry.length entry.fileIndex := by
  obtain ⟨hnonneg, hlt⟩ := h
  have hnat : entry.fileIndex.toNat < map.sources.length := by omega
  refine ⟨_, List.getElem_mem hnat, ?_⟩
  rw [rangeOf, if_neg (Int.not_lt.mpr hnonneg), List.getElem?_eq_getElem hnat]

/-- The range of an entry outside of the sources has no lines. -/
theorem rangeOf_of_not_knows (h : ¬ map.Knows entry) :
    map.rangeOf entry = ⟨entry.offset, entry.length, ⟨0, 0⟩, ⟨0, 0⟩, entry.fileIndex⟩ := by
  rw [rangeOf]
  split
  case isTrue => rfl
  case isFalse hnonneg =>
    have hle : map.sources.length ≤ entry.fileIndex.toNat := by
      rw [Knows] at h
      omega
    rw [List.getElem?_eq_none hle]

/-- A range has lines exactly if its entry lies in one of the sources. -/
theorem line_pos_iff (h : map.Indexed) :
    0 < (map.rangeOf entry).first.line ∧ 0 < (map.rangeOf entry).last.line ↔ map.Knows entry := by
  constructor
  · rintro ⟨hfirst, -⟩
    by_contra hknows
    rw [rangeOf_of_not_knows hknows] at hfirst
    exact absurd hfirst (Nat.lt_irrefl 0)
  · intro hknows
    obtain ⟨index, hindex, hrange⟩ := exists_rangeOf hknows
    obtain ⟨source, rfl⟩ := h index hindex
    rw [hrange]
    exact ⟨LineIndex.line_pos source _, LineIndex.line_pos source _⟩

end ProgramMap

namespace Session

variable {start : Workbench} {base base' : Base} {ticket ticket' : Ticket}
  {origin here session : Session} {position : Nat} {program : Program} {entry : MapEntry}

/-! ### Positions with an entry -/

/-- The instruction at a position has an entry in the map of the program that owns it. -/
def MappedAt (session : Session) (position : Nat) (program : Program) (entry : MapEntry) : Prop :=
  ∃ step, session.bench.recording.steps[position]? = some step ∧
    (session.viewAt position).owner step = some program ∧
    program.map.entryAt step.pc = .ok (some entry)

/-- The position of an instruction with an entry is before the end. -/
theorem MappedAt.lt (h : session.MappedAt position program entry) :
    position < session.traceLength := by
  obtain ⟨step, hstep, -⟩ := h
  obtain ⟨hlt, -⟩ := List.getElem?_eq_some_iff.mp hstep
  exact hlt

section Mapped

variable (hl : Loaded session) (hp : session.Processes)

include hl hp

/-- There is a source range at a position exactly if the instruction has an entry, and it is the
range of the entry. -/
theorem rangeAt_eq_some_iff {range : SourceRange} (hlt : position < session.traceLength) :
    session.rangeAt position = some range ↔ ∃ program entry,
      session.MappedAt position program entry ∧ range = program.map.rangeOf entry := by
  obtain ⟨step, events, h⟩ := exists_passage hl hp hlt
  obtain ⟨found, tree, hrange, -, hread, -⟩ := h.exists_readings
  rw [hread]
  constructor
  · rintro rfl
    -- a step without an owner has no range, and an owner reads the range off the entry
    cases howner : (session.viewAt position).owner step with
    | none =>
      rw [howner] at hrange
      cases hrange
    | some program =>
      rw [howner] at hrange
      obtain ⟨entry, hentry, hmap⟩ := exists_of_map_eq_ok hrange
      obtain ⟨entry, rfl, rfl⟩ := Option.map_eq_some_iff.mp hmap
      exact ⟨program, entry, ⟨step, h.isStep, howner, hentry⟩, rfl⟩
  · rintro ⟨program, entry, ⟨step', hstep', howner, hentry⟩, rfl⟩
    obtain rfl := Option.some.inj (h.isStep.symm.trans hstep')
    rw [howner, Step.rangeIn, ProgramMap.rangeAt, hentry] at hrange
    exact (Except.ok.inj hrange).symm

/-- A session can stop wherever the instruction has an entry, except at contracts. -/
theorem stoppable_iff : session.Stoppable position ↔
    (∃ program entry, session.MappedAt position program entry) ∧
      ∀ node, session.nodeAt position = some node → node.kind ≠ .contract := by
  constructor
  · rintro ⟨hlt, hrange, hnode⟩
    obtain ⟨range, hrange⟩ := Option.isSome_iff_exists.mp hrange
    obtain ⟨program, entry, hmapped, -⟩ := (rangeAt_eq_some_iff hl hp hlt).mp hrange
    exact ⟨⟨program, entry, hmapped⟩, hnode⟩
  · rintro ⟨⟨program, entry, hmapped⟩, hnode⟩
    have hrange := (rangeAt_eq_some_iff hl hp hmapped.lt).mpr ⟨program, entry, hmapped, rfl⟩
    exact ⟨hmapped.lt, Option.isSome_iff_exists.mpr ⟨_, hrange⟩, hnode⟩

/-- Where a program has no tree of the source, there is no node. -/
theorem MappedAt.nodeAt_eq_none (h : session.MappedAt position program entry)
    (htrees : SyntaxTree.valueOf? entry.fileIndex program.trees = none) :
    session.nodeAt position = none := by
  obtain ⟨step, events, hpasses⟩ := exists_passage hl hp h.lt
  obtain ⟨range, tree, hrange, htree, hread, hnode⟩ := hpasses.exists_readings
  have hfound := (rangeAt_eq_some_iff hl hp h.lt).mpr ⟨program, entry, h, rfl⟩
  obtain ⟨step', hstep', howner, -⟩ := h
  obtain rfl := Option.some.inj (hpasses.isStep.symm.trans hstep')
  rw [howner] at hrange htree
  rw [Step.treeIn, show program.map.rangeAt step.pc = .ok range from hrange,
    hread.symm.trans hfound] at htree
  obtain rfl := Except.ok.inj htree
  rw [hnode, Program.treeFor, ProgramMap.fileIndex_rangeOf, htrees]
  cases range <;> rfl

end Mapped

/-! ### Landings -/

/-- A walk ends at the end of the trace, or where the session can stop. -/
theorem At.stoppable_landing (hs : Outset start) (h : At start base ticket session)
    (hc : session.cursor = 0) (h' : At start base' ticket' here) {order : Order}
    (ho : order ≠ .advance) :
    here.landing order = session.traceLength ∨ session.Stoppable (here.landing order) := by
  obtain ⟨purpose, hpurpose⟩ : ∃ purpose, base'.bench.pursuitOf (session.rangeAt here.cursor) order
      = .walk (session.rangeAt here.cursor) purpose := by
    cases order with
    | advance => exact absurd rfl ho
    | _ => exact ⟨_, rfl⟩
  -- it ends where a step over the source does
  obtain ⟨-, count, hvisited, -⟩ := h.firstVisited hs hc h' order hpurpose
  obtain ⟨⟨_, _, hthere⟩, -⟩ := At.obey hs (List.replicate count .stepNext) h'
  obtain ⟨_, _, _, _, hrests⟩ := h.carryOut_stepNext hs hc hthere
  rw [← hvisited, visited_add here count 1, visited_one]
  exact hrests.imp_right fun hstops => hstops.2.1

/-- A step over the source ends at the first place past its start where the session can stop and the
range differs. -/
theorem At.landing_stepNext (hs : Outset start) (h : At start base ticket session)
    (hc : session.cursor = 0) (h' : At start base' ticket' here) (hlt : here.cursor < position)
    (hstop : session.Stoppable position) (huniform : session.Uniform here.cursor position)
    (hdiffers : SourceRange.same (session.rangeAt position) (session.rangeAt here.cursor) = false) :
    here.landing .stepNext = position := by
  obtain ⟨-, -, -, huniform', hlast⟩ := h.carryOut_stepNext hs hc h'
  rcases Nat.lt_trichotomy (here.landing .stepNext) position with hless | heq | hgreater
  · -- it does not end before: nothing differs there
    rcases hlast with hend | hstops
    · exact absurd (hend ▸ hless) (Nat.lt_asymm hstop.1)
    · exact absurd hstops (huniform.not_stopsAt hless)
  · exact heq
  · -- it does not pass the place: something differs there
    rw [huniform' position hlt hgreater hstop] at hdiffers
    cases hdiffers

/-- **Where commands rest.**  Whatever has been asked of a session since it loaded a trace whose
steps are processed, a command other than a single advance that ends before the end of the trace
rests at an instruction that has an entry in the map of its program and whose node is no contract.
The place has lines exactly if the entry lies in one of the sources, and nothing sees to that: a
step over the source rests at the first entry whose node is no contract and whose range differs from
that of its start, and there is no node at all where an entry lies in a source without a tree. -/
theorem walks_rest (hl : Loaded origin) (hp : origin.Processes) (ho : Onward origin here)
    (hi : here.caller = .idle) (hw : here.store.tripwires = []) :
    (∀ order, order ≠ .advance → here.landing order < origin.traceLength →
      ∃ program entry, origin.MappedAt (here.landing order) program entry ∧
        origin.rangeAt (here.landing order) = some (program.map.rangeOf entry) ∧
        (∀ node, origin.nodeAt (here.landing order) = some node → node.kind ≠ .contract) ∧
        (program.map.Indexed →
          (0 < (program.map.rangeOf entry).first.line ∧ 0 < (program.map.rangeOf entry).last.line ↔
            program.map.Knows entry))) ∧
    (∀ position program entry, here.cursor < position → origin.MappedAt position program entry →
      (∀ node, origin.nodeAt position = some node → node.kind ≠ .contract) →
      origin.Uniform here.cursor position →
      SourceRange.same (origin.rangeAt position) (origin.rangeAt here.cursor) = false →
      here.landing .stepNext = position) ∧
    ∀ position program entry, origin.MappedAt position program entry →
      SyntaxTree.valueOf? entry.fileIndex program.trees = none → origin.nodeAt position = none := by
  obtain ⟨start, base₀, ticket₀, base, ticket, hs, hat₀, hcursor, hat⟩ :=
    ho.exists_both_at hl hp hi hw
  refine ⟨fun order hne hlt => ?_, fun position program entry hlt hmapped hnode => ?_,
    fun position program entry hmapped htrees => hmapped.nodeAt_eq_none hl hp htrees⟩
  · -- a place to stop is all that a walk looks for: the entry, and what kind of node it is
    have hstop := (hat₀.stoppable_landing hs hcursor hat hne).resolve_left (Nat.ne_of_lt hlt)
    obtain ⟨⟨program, entry, hmapped⟩, hnode⟩ := (stoppable_iff hl hp).mp hstop
    exact ⟨program, entry, hmapped,
      (rangeAt_eq_some_iff hl hp hlt).mpr ⟨program, entry, hmapped, rfl⟩, hnode,
      fun hindexed => ProgramMap.line_pos_iff hindexed⟩
  · have hstop : origin.Stoppable position :=
      (stoppable_iff hl hp).mpr ⟨⟨program, entry, hmapped⟩, hnode⟩
    exact hat₀.landing_stepNext hs hcursor hat hlt hstop

/-! ### A run through generated code -/

/-- A program of three instructions, the second of which the compiler has generated. -/
def generatedProgram : Program :=
  ⟨{ name := "Generated"
     sources := [⟨12, [0, 6, 12]⟩]
     entries := [⟨0, 5, 0, .regular, 0⟩, ⟨3, 4, -1, .regular, 0⟩, ⟨6, 5, 0, .regular, 0⟩]
     instructionAt := [(0, 0), (1, 1), (2, 2)] }, []⟩

def generatedSteps : List Step :=
  [{ pc := 0, op := "PUSH1" }, { pc := 1, op := "ADD" }, { pc := 2, op := "STOP" }]

/-- A session that has loaded a run of that program. -/
def generated : Session :=
  ((new { fallback := some generatedProgram } none 1).perform (.load generatedSteps none none)).1

theorem loaded_generated : Loaded generated := loaded_of_callTargets rfl _ _ _ _

/-- That run is processed to its end, and the steps from its start end before it. -/
theorem run_generated :
    generated.Processes ∧ generated.store.tripwires = [] ∧
      generated.landing .stepOver < generated.traceLength ∧
      SourceRange.same (generated.rangeAt 1) (generated.rangeAt generated.cursor) = false := by
  decide +kernel

/-- The second instruction has an entry in none of the sources. -/
theorem exists_mappedAt_generated : ∃ program, program.map.Indexed ∧ program.trees = [] ∧
    generated.MappedAt 1 program ⟨3, 4, -1, .regular, 0⟩ := by
  -- what is evaluated are the parts of the program that can be compared
  have hfound : (generated.bench.recording.steps[1]?.bind fun step =>
      ((generated.viewAt 1).owner step).map fun program =>
        (program.map.sources, program.trees.length, (program.map.entryAt step.pc).toOption))
        = some ([.ofSource "aaaaa\nbbbbb\n"], 0, some (some ⟨3, 4, -1, .regular, 0⟩)) := by
    decide +kernel
  obtain ⟨step, hstep, hfound⟩ := Option.bind_eq_some_iff.mp hfound
  obtain ⟨program, howner, hread⟩ := Option.map_eq_some_iff.mp hfound
  obtain ⟨hsources, hread⟩ := Prod.mk.inj hread
  obtain ⟨htrees, hentry⟩ := Prod.mk.inj hread
  refine ⟨program, fun index hindex => ?_, List.length_eq_zero_iff.mp htrees, step, hstep, howner,
    ?_⟩
  · rw [hsources] at hindex
    exact ⟨_, List.mem_singleton.mp hindex⟩
  · cases hread : program.map.entryAt step.pc with
    | error fault =>
      rw [hread] at hentry
      cases hentry
    | ok entry =>
      rw [hread] at hentry
      exact congrArg _ (Option.some.inj hentry)

/-- A step over the source rests in code that the compiler has generated. -/
theorem generated_stepNext_rests :
    Loaded generated ∧ generated.Processes ∧
      generated.landing .stepNext < generated.traceLength ∧
      ∃ program entry, generated.MappedAt (generated.landing .stepNext) program entry ∧
        program.map.Indexed ∧ ¬ program.map.Knows entry ∧
        (program.map.rangeOf entry).first.line = 0 := by
  obtain ⟨hprocesses, -⟩ := run_generated
  have hlands : generated.landing .stepNext = 1 := by decide +kernel
  have hlt : 1 < generated.traceLength := by decide +kernel
  obtain ⟨program, hindexed, -, hmapped⟩ := exists_mappedAt_generated
  have hknows : ¬ program.map.Knows ⟨3, 4, -1, .regular, 0⟩ := fun h => absurd h.1 (by decide)
  refine ⟨loaded_generated, hprocesses, hlands ▸ hlt, program, _, hlands ▸ hmapped, hindexed,
    hknows, ?_⟩
  rw [ProgramMap.rangeOf_of_not_knows hknows]

theorem generated_walks_rest :
    Loaded generated ∧ generated.Processes ∧ Onward generated generated ∧
      generated.caller = .idle ∧ generated.store.tripwires = [] ∧
      generated.landing .stepOver < generated.traceLength ∧
      (∃ program entry, generated.MappedAt (generated.landing .stepOver) program entry) ∧
      generated.nodeAt 1 = none ∧ generated.landing .stepNext = 1 := by
  obtain ⟨hprocesses, hwired, hlt, hdiffers⟩ := run_generated
  obtain ⟨hrests, hfirst, hnodes⟩ :=
    walks_rest loaded_generated hprocesses .origin loaded_generated.idle hwired
  obtain ⟨program, entry, hmapped, -⟩ := hrests .stepOver (fun h => by cases h) hlt
  obtain ⟨program', -, htrees, hmapped'⟩ := exists_mappedAt_generated
  -- the file index of the second entry is none of a source, so there is no node
  have hnode : generated.nodeAt 1 = none := hnodes 1 program' _ hmapped' (by rw [htrees]; rfl)
  refine ⟨loaded_generated, hprocesses, .origin, loaded_generated.idle, hwired, hlt,
    ⟨program, entry, hmapped⟩, hnode, ?_⟩
  refine hfirst 1 program' _ (by decide +kernel) hmapped' (fun node hread => ?_) ?_ hdiffers
  · rw [hnode] at hread
    cases hread
  · intro position hlt hlt'
    have hcursor : generated.cursor = 0 := by decide +kernel
    omega

end Session

end TraceDebugger
