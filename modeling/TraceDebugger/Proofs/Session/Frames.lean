/-
Which frames stand at a position of a trace.

A frame is entered before the first step or by a step that calls or deploys.  It is left once the
steps since then hold more halting ones than ones that enter frames.  So the call stack can be told
without replaying it: its frames are those that have been entered and not left, in the order of
their entries.

* `countFrom_succ`, `isOpen_succ_iff` — how one step counts, and which frames are open after it;
* `OpenFrames.enter`, `OpenFrames.leave`, `OpenFrames.stay` — what it makes of the frames;
* `exists_openFrames` — the frames that stand at a position are those that are open there;
* `open_frames` — so they are wherever a session has come to, and each has the depth of its place.
-/
import TraceDebugger.Proofs.Session.Comparison
import TraceDebugger.Proofs.Session.Depths
import TraceDebugger.Proofs.Store.Moments

namespace TraceDebugger

/-- A step halts the code of a frame. -/
def Step.halts (step : Step) : Bool := Opcode.isHalting step.op

theorem Step.not_enters_of_halts {step : Step} (h : step.halts = true) : step.enters = false := by
  rw [enters, Opcode.not_isCall_of_isHalting h, Opcode.not_isCreate_of_isHalting h, Bool.or_false]

theorem Step.not_halts_of_enters {step : Step} (h : step.enters = true) : step.halts = false := by
  cases hhalts : step.halts with
  | false => rfl
  | true =>
    rw [not_enters_of_halts hhalts] at h
    cases h

namespace Session

variable {origin here session : Session} {address binary : Option String}
  {entry position : Nat} {step : Step}

/-! ### Entries -/

/-- A frame is entered before the step at a position: the first one of all by the address or else
the code that the trace was loaded with, and every other one by the step right before that
position. -/
inductive EntersAt (session : Session) (address binary : Option String) :
    Nat → Option String → Option String → Prop
  | called {text : String} (h : address = some text) (hne : text ≠ "") :
      EntersAt session address binary 0 (some text) none
  | deployed {text : String} (ha : ∀ other, address = some other → other = "")
      (h : binary = some text) (hne : text ≠ "") :
      EntersAt session address binary 0 none (some text)
  | call {position : Nat} {step : Step} {target : Option String}
      (hstep : session.bench.recording.steps[position]? = some step)
      (h : Opcode.isCall step.op = true)
      (ha : (session.viewAt position).callAddress = .ok target) :
      EntersAt session address binary (position + 1) target none
  | create {position : Nat} {step : Step} {code : Option String}
      (hstep : session.bench.recording.steps[position]? = some step)
      (h : Opcode.isCreate step.op = true)
      (hb : (session.viewAt position).createBinary = .ok code) :
      EntersAt session address binary (position + 1) none code

/-- A trace was loaded with an address or code, or the step right before a position calls or
deploys. -/
def OpensAt (session : Session) (address binary : Option String) : Nat → Prop
  | 0 => ∃ text, (address = some text ∨ binary = some text) ∧ text ≠ ""
  | position + 1 => ∃ step, session.bench.recording.steps[position]? = some step ∧
      (Opcode.isCall step.op = true ∨ Opcode.isCreate step.op = true)

/-- How many of the steps from one position up to another are of a kind. -/
def countFrom (session : Session) (kind : Step → Bool) (first last : Nat) : Nat :=
  ((session.bench.recording.steps.take last).drop first).countP kind

/-- The frame that is entered at a position has been left before another one: up to one of the steps
between, more of them halt than call or deploy. -/
def LeftBy (session : Session) (entry position : Nat) : Prop :=
  ∃ last, entry ≤ last ∧ last < position ∧
    session.countFrom Step.enters entry (last + 1) < session.countFrom Step.halts entry (last + 1)

/-- A frame has been entered and has not been left. -/
def IsOpen (session : Session) (address binary : Option String) (position entry : Nat) : Prop :=
  entry ≤ position ∧ session.OpensAt address binary entry ∧ ¬ session.LeftBy entry position

theorem opensAt_succ_iff (hstep : session.bench.recording.steps[position]? = some step) :
    session.OpensAt address binary (position + 1) ↔ step.enters = true := by
  simp [OpensAt, hstep, Step.enters]

theorem countFrom_self (session : Session) (kind : Step → Bool) (position : Nat) :
    session.countFrom kind position position = 0 := by
  rw [countFrom, List.drop_eq_nil_of_le (List.length_take_le _ _), List.countP_nil]

theorem countFrom_succ (hstep : session.bench.recording.steps[position]? = some step)
    (hle : entry ≤ position) (kind : Step → Bool) :
    session.countFrom kind entry (position + 1)
      = session.countFrom kind entry position + (kind step).toNat := by
  obtain ⟨hlt, -⟩ := List.getElem?_eq_some_iff.mp hstep
  have hlength : entry ≤ (session.bench.recording.steps.take position).length := by
    rw [List.length_take]
    omega
  rw [countFrom, countFrom, List.take_add_one, hstep, List.drop_append_of_le_length hlength,
    List.countP_append, Option.toList_some, List.countP_singleton]
  cases kind step <;> rfl

theorem leftBy_succ_iff (hle : entry ≤ position) :
    session.LeftBy entry (position + 1) ↔ session.LeftBy entry position ∨
      session.countFrom Step.enters entry (position + 1)
        < session.countFrom Step.halts entry (position + 1) := by
  constructor
  · rintro ⟨last, hfirst, hlast, hless⟩
    rcases Nat.lt_succ_iff_lt_or_eq.mp hlast with hlast | rfl
    · exact .inl ⟨last, hfirst, hlast, hless⟩
    · exact .inr hless
  · rintro (⟨last, hfirst, hlast, hless⟩ | hless)
    · exact ⟨last, hfirst, Nat.lt_succ_of_lt hlast, hless⟩
    · exact ⟨position, hle, Nat.lt_succ_self position, hless⟩

theorem not_leftBy_self (session : Session) (entry : Nat) : ¬ session.LeftBy entry entry := by
  rintro ⟨last, hfirst, hlast, -⟩
  omega

/-- After a step, the frame is open that it enters, and those that were open before it and that it
does not leave. -/
theorem isOpen_succ_iff (hstep : session.bench.recording.steps[position]? = some step) :
    session.IsOpen address binary (position + 1) entry ↔
      entry = position + 1 ∧ step.enters = true ∨
      session.IsOpen address binary position entry ∧
        session.countFrom Step.halts entry (position + 1)
          ≤ session.countFrom Step.enters entry (position + 1) := by
  rw [IsOpen, IsOpen]
  constructor
  · rintro ⟨hle, hopens, hleft⟩
    rcases Nat.eq_or_lt_of_le hle with rfl | hlt
    · exact .inl ⟨rfl, (opensAt_succ_iff hstep).mp hopens⟩
    · -- an older frame is open still if this step has not been the one to leave it
      have hle : entry ≤ position := Nat.le_of_lt_succ hlt
      rw [leftBy_succ_iff hle, not_or, Nat.not_lt] at hleft
      exact .inr ⟨⟨hle, hopens, hleft.1⟩, hleft.2⟩
  · rintro (⟨rfl, henters⟩ | ⟨⟨hle, hopens, hleft⟩, hcount⟩)
    · exact ⟨Nat.le_refl _, (opensAt_succ_iff hstep).mpr henters, not_leftBy_self session _⟩
    · refine ⟨Nat.le_succ_of_le hle, hopens, ?_⟩
      rw [leftBy_succ_iff hle, not_or, Nat.not_lt]
      exact ⟨hleft, hcount⟩

/-! ### The frames that stand -/

/-- The entries of the frames that stand at a position, innermost first.  The depth of each frame is
its place.  Since its entry there have been as many calls and deployments as halting steps, and
one more for each frame that stands above it. -/
structure OpenFrames (session : Session) (address binary : Option String) (position : Nat)
    (entries : List Nat) : Prop where
  sorted : entries.Pairwise (· > ·)
  frames : List.Forall₂
    (fun entry frame => session.EntersAt address binary entry frame.address frame.binary)
    entries (session.stackAt position).frames
  numbered : (session.stackAt position).Numbered
  mem_iff : ∀ entry, entry ∈ entries ↔ session.IsOpen address binary position entry
  balance : ∀ k entry, entries[k]? = some entry →
    session.countFrom Step.enters entry position = session.countFrom Step.halts entry position + k

namespace OpenFrames

variable {entries : List Nat} (h : session.OpenFrames address binary position entries)
  (hstep : session.bench.recording.steps[position]? = some step)

include h

theorem le_of_getElem? {k : Nat} (hk : entries[k]? = some entry) : entry ≤ position :=
  ((h.mem_iff entry).mp (List.mem_of_getElem? hk)).1

include hstep

theorem balance_succ {k : Nat} (hk : entries[k]? = some entry) :
    session.countFrom Step.enters entry (position + 1) + step.halts.toNat
      = session.countFrom Step.halts entry (position + 1) + step.enters.toNat + k := by
  have hle := h.le_of_getElem? hk
  have hbefore := h.balance k entry hk
  rw [countFrom_succ hstep hle, countFrom_succ hstep hle]
  omega

theorem isOpen_succ_iff_mem : session.IsOpen address binary (position + 1) entry ↔
    entry = position + 1 ∧ step.enters = true ∨
      entry ∈ entries ∧ session.countFrom Step.halts entry (position + 1)
        ≤ session.countFrom Step.enters entry (position + 1) := by
  rw [isOpen_succ_iff hstep, h.mem_iff]

/-- A step that calls or deploys enters one more frame. -/
theorem enter {address' binary' : Option String} (henters : step.enters = true)
    (hentry : session.EntersAt address binary (position + 1) address' binary')
    (hstack : session.stackAt (position + 1) = (session.stackAt position).push address' binary') :
    session.OpenFrames address binary (position + 1) ((position + 1) :: entries) := by
  have hhalts := Step.not_halts_of_enters henters
  -- no frame is left: each gets one more above it
  have hbalance : ∀ k entry, entries[k]? = some entry →
      session.countFrom Step.enters entry (position + 1)
        = session.countFrom Step.halts entry (position + 1) + (k + 1) := by
    intro k entry hk
    have hcount := h.balance_succ hstep hk
    rw [henters, hhalts, Bool.toNat_true, Bool.toNat_false] at hcount
    omega
  refine ⟨.cons (fun entry hentry => ?_) h.sorted, ?_, hstack ▸ h.numbered.push _ _,
    fun entry => ?_, fun k entry hk => ?_⟩
  · exact Nat.lt_succ_of_le ((h.mem_iff entry).mp hentry).1
  · rw [hstack]
    exact .cons hentry h.frames
  · rw [h.isOpen_succ_iff_mem hstep, List.mem_cons, and_iff_left henters]
    refine or_congr_right (and_iff_left_of_imp fun hmem => ?_).symm
    obtain ⟨k, hk⟩ := List.getElem?_of_mem hmem
    have hcount := hbalance k entry hk
    omega
  · cases k with
    | zero =>
      obtain rfl := Option.some.inj hk
      rw [countFrom_self, countFrom_self]
    | succ k => exact hbalance k entry hk

/-- A halting step leaves the innermost frame, if there is one. -/
theorem leave (hhalts : step.halts = true)
    (hstack : session.stackAt (position + 1) = (session.stackAt position).pop) :
    session.OpenFrames address binary (position + 1) entries.tail := by
  have henters := Step.not_enters_of_halts hhalts
  have hbalance : ∀ k entry, entries[k]? = some entry →
      session.countFrom Step.enters entry (position + 1) + 1
        = session.countFrom Step.halts entry (position + 1) + k := by
    intro k entry hk
    have hcount := h.balance_succ hstep hk
    rwa [henters, hhalts, Bool.toNat_true, Bool.toNat_false, Nat.add_zero] at hcount
  have hmem : ∀ entry, session.IsOpen address binary (position + 1) entry ↔
      entry ∈ entries ∧ session.countFrom Step.halts entry (position + 1)
        ≤ session.countFrom Step.enters entry (position + 1) := by
    intro entry
    simp [h.isOpen_succ_iff_mem hstep, henters]
  cases entries with
  | nil =>
    have hnone : (session.stackAt position).frames = [] := List.forall₂_nil_left_iff.mp h.frames
    refine ⟨.nil, ?_, hstack ▸ h.numbered.pop, fun entry => ?_, nofun⟩
    · rw [hstack, CallStack.pop, hnone]
      exact .nil
    · simp [hmem]
  | cons innermost rest =>
    obtain ⟨frame, frames, -, hrest, hframes⟩ := List.forall₂_cons_left_iff.mp h.frames
    refine ⟨h.sorted.of_cons, ?_, hstack ▸ h.numbered.pop, fun entry => ?_, fun k entry hk => ?_⟩
    · rw [hstack, CallStack.pop, hframes]
      exact hrest
    · rw [hmem, List.mem_cons]
      constructor
      · intro hentry
        obtain ⟨k, hk⟩ := List.getElem?_of_mem hentry
        have hcount := hbalance (k + 1) entry hk
        exact ⟨.inr hentry, by omega⟩
      · -- the innermost frame has been left
        rintro ⟨rfl | hentry, hless⟩
        · have hcount := hbalance 0 entry rfl
          omega
        · exact hentry
    · have hcount := hbalance (k + 1) entry hk
      omega

/-- Any other step leaves the frames alone. -/
theorem stay (henters : step.enters = false) (hhalts : step.halts = false)
    (hstack : session.stackAt (position + 1) = session.stackAt position) :
    session.OpenFrames address binary (position + 1) entries := by
  have hbalance : ∀ k entry, entries[k]? = some entry →
      session.countFrom Step.enters entry (position + 1)
        = session.countFrom Step.halts entry (position + 1) + k := by
    intro k entry hk
    have hcount := h.balance_succ hstep hk
    rwa [henters, hhalts, Bool.toNat_false, Nat.add_zero, Nat.add_zero] at hcount
  refine ⟨h.sorted, hstack ▸ h.frames, hstack ▸ h.numbered, fun entry => ?_, hbalance⟩
  simp only [h.isOpen_succ_iff_mem hstep, henters, Bool.false_eq_true, and_false, false_or]
  refine (and_iff_left_of_imp fun hentry => ?_).symm
  obtain ⟨k, hk⟩ := List.getElem?_of_mem hentry
  have hcount := hbalance k entry hk
  omega

end OpenFrames

/-- Before the first step only the frame stands that the trace was loaded with. -/
theorem exists_openFrames_zero (hl : LoadedWith address binary session) :
    ∃ entries, session.OpenFrames address binary 0 entries := by
  have hfirst : FirstStack address binary (session.stackAt 0) := hl.firstStack
  have hopen : ∀ entry, session.IsOpen address binary 0 entry ↔
      entry = 0 ∧ session.OpensAt address binary 0 := by
    intro entry
    rw [IsOpen, Nat.le_zero]
    constructor
    · rintro ⟨rfl, hopens, -⟩
      exact ⟨rfl, hopens⟩
    · rintro ⟨rfl, hopens⟩
      exact ⟨rfl, hopens, not_leftBy_self session 0⟩
  -- as no step has been passed, as many have entered as have halted, up to the place in the list
  have hbalance : ∀ k entry, [0][k]? = some entry →
      session.countFrom Step.enters entry 0 = session.countFrom Step.halts entry 0 + k := by
    intro k entry hk
    obtain ⟨hlt, rfl⟩ := List.getElem?_eq_some_iff.mp hk
    obtain rfl : k = 0 := Nat.lt_one_iff.mp hlt
    simp [countFrom_self]
  have hempty : CallStack.Numbered {} := nofun
  generalize hstack : session.stackAt 0 = stack at hfirst
  -- the trace was loaded with an address, with creation code, or with neither
  cases hfirst with
  | @call text h hne =>
    refine ⟨[0], List.pairwise_singleton _ _, ?_, ?_, fun entry => ?_, hbalance⟩
    · rw [hstack]
      exact .cons (.called h hne) .nil
    · rw [hstack]
      exact hempty.push _ _
    · rw [hopen, List.mem_singleton, and_iff_left ⟨text, .inl h, hne⟩]
  | @create text ha h hne =>
    refine ⟨[0], List.pairwise_singleton _ _, ?_, ?_, fun entry => ?_, hbalance⟩
    · rw [hstack]
      exact .cons (.deployed ha h hne) .nil
    · rw [hstack]
      exact hempty.push _ _
    · rw [hopen, List.mem_singleton, and_iff_left ⟨text, .inr h, hne⟩]
  | nothing ha hb =>
    refine ⟨[], .nil, ?_, ?_, fun entry => ?_, nofun⟩
    · rw [hstack]
      exact .nil
    · rw [hstack]
      exact hempty
    · rw [hopen]
      refine ⟨nofun, ?_⟩
      rintro ⟨-, text, haddress | hbinary, hne⟩
      · exact absurd (ha text haddress) hne
      · exact absurd (hb text hbinary) hne

/-- The frames that stand at a position are those that have been entered and not left. -/
theorem exists_openFrames (hl : LoadedWith address binary session) (hp : session.Processes)
    (hle : position ≤ session.traceLength) :
    ∃ entries, session.OpenFrames address binary position entries := by
  -- on the position; each step enters a frame, leaves one or stays
  induction position with
  | zero => exact exists_openFrames_zero hl
  | succ position ih =>
    obtain ⟨entries, h⟩ := ih (by omega)
    obtain ⟨step, hstep, hframe, -⟩ := exists_frameStep hl.loaded hp hle
    generalize hnext : session.stackAt (position + 1) = next at hframe
    cases hframe with
    | call hcall ha =>
      exact ⟨_, h.enter hstep (Step.enters_of_isCall hcall) (.call hstep hcall ha) hnext⟩
    | create hcreate hb =>
      exact ⟨_, h.enter hstep (Step.enters_of_isCreate hcreate) (.create hstep hcreate hb) hnext⟩
    | leave hhalts => exact ⟨_, h.leave hstep hhalts hnext⟩
    | stay henters hhalts => exact ⟨_, h.stay hstep henters hhalts hnext⟩

/-! ### A run that halts too often -/

/-- The steps of a run that halts twice in its only frame, and then calls, deploys and halts. -/
def surplusSteps : List Step :=
  [{ pc := 0, op := "STOP" }, { pc := 1, op := "STOP" },
    { pc := 2, op := "CALL", stack := some ["a1", "ffff"] },
    { pc := 3, op := "CREATE", stack := some ["2", "0", "0"], memory := some "6001" },
    { pc := 4, op := "STOP" }, { pc := 5, op := "POP" }]

/-- A session that has loaded that run. -/
def surplus : Session :=
  ((new {} none 1).perform
    (.load surplusSteps (some "0x00000000000000000000000000000000000000b2") none)).1

theorem loadedWith_surplus :
    LoadedWith (some "0x00000000000000000000000000000000000000b2") none surplus := by
  obtain ⟨addresses, htargets⟩ : ∃ addresses, callTargets none surplusSteps = .ok addresses :=
    ⟨_, rfl⟩
  exact .steps (perform_load htargets _ _ _ _)

/-- That run is processed to its end.  Before its last halting step there are two frames. -/
theorem run_surplus :
    surplus.Processes ∧ (surplus.obey (List.replicate 4 .advance)).cursor = 4 ∧
      (surplus.obey (List.replicate 4 .advance)).bench.slices.callStack.frames.reverse
        = [{ address := some "0x00000000000000000000000000000000000000a1", depth := 1 },
            { binary := some "0x6001", depth := 2 }] := by
  decide +kernel

/-- **The frames of the call stack.**  Whatever has been asked of a session since it loaded a trace
whose steps are processed, the frames of its call stack are, outermost first, those that have
been entered before its cursor and not been left, in the order of their entries.  The first one
may be that of the address or the code that the trace was loaded with, and each other one is
that of the target of a call or of the code of a deployment.  A frame has been left once more of
the steps since its entry have halted than called or deployed.  The depth of each frame is its
place, counted from one. -/
theorem open_frames (hl : LoadedWith address binary origin) (hp : origin.Processes)
    (ho : Onward origin here) (hi : here.caller = .idle) (hw : here.store.tripwires = []) :
    ∃ entries : List Nat, entries.Pairwise (· < ·) ∧
      (∀ entry, entry ∈ entries ↔ entry ≤ here.cursor ∧ origin.OpensAt address binary entry ∧
        ¬ origin.LeftBy entry here.cursor) ∧
      List.Forall₂
        (fun entry frame => origin.EntersAt address binary entry frame.address frame.binary)
        entries here.bench.slices.callStack.frames.reverse ∧
      ∀ k frame, here.bench.slices.callStack.frames.reverse[k]? = some frame →
        frame.depth = k + 1 := by
  obtain ⟨start, base₀, ticket₀, base, ticket, hs, hat₀, hcursor, hat⟩ :=
    ho.exists_both_at hl.loaded hp hi hw
  have hstack : here.bench.slices.callStack = origin.stackAt here.cursor :=
    congrArg (·.callStack) (hat₀.slices_eq hs hcursor hat)
  obtain ⟨entries, h⟩ := exists_openFrames hl hp (At.cursor_le hs hat₀ hat)
  rw [hstack]
  refine ⟨entries.reverse, List.pairwise_reverse.mpr h.sorted, fun entry => ?_,
    List.forall₂_reverse_iff.mpr h.frames, h.numbered⟩
  rw [List.mem_reverse]
  exact h.mem_iff entry

theorem surplus_open_frames :
    LoadedWith (some "0x00000000000000000000000000000000000000b2") none surplus ∧
      surplus.Processes ∧ Onward surplus (surplus.obey (List.replicate 4 .advance)) ∧
      (surplus.obey (List.replicate 4 .advance)).caller = .idle ∧
      (surplus.obey (List.replicate 4 .advance)).store.tripwires = [] ∧
      ∃ first second, first < second ∧
        (∀ entry, entry = first ∨ entry = second ↔ entry ≤ 4 ∧
          surplus.OpensAt (some "0x00000000000000000000000000000000000000b2") none entry ∧
          ¬ surplus.LeftBy entry 4) ∧
        surplus.EntersAt (some "0x00000000000000000000000000000000000000b2") none first
          (some "0x00000000000000000000000000000000000000a1") none ∧
        surplus.EntersAt (some "0x00000000000000000000000000000000000000b2") none second none
          (some "0x6001") := by
  obtain ⟨hprocesses, hcursor, hframes⟩ := run_surplus
  have hl := loadedWith_surplus
  obtain ⟨ho, hi, hw⟩ := hl.loaded.onward_obey hprocesses (List.replicate 4 .advance)
  obtain ⟨entries, hsorted, hmem, hpairs, -⟩ := open_frames hl hprocesses ho hi hw
  -- the two frames that are seen stand for two entries, of which nothing else has to be computed
  rw [hframes] at hpairs
  obtain ⟨first, rest, hfirst, hrest, rfl⟩ := List.forall₂_cons_right_iff.mp hpairs
  obtain ⟨second, rest, hsecond, hnil, rfl⟩ := List.forall₂_cons_right_iff.mp hrest
  obtain rfl := List.forall₂_nil_right_iff.mp hnil
  refine ⟨hl, hprocesses, ho, hi, hw, first, second, ?_, fun entry => ?_, hfirst, hsecond⟩
  · exact (List.pairwise_cons.mp hsorted).1 second (List.mem_singleton_self second)
  · rw [hcursor] at hmem
    rw [← hmem, List.mem_cons, List.mem_singleton]

end Session

end TraceDebugger
