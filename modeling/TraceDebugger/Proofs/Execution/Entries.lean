/-
Log entries that make no step.

An entry makes a step if its program counter is a number, it has an opcode, its other numbers are
numbers where they are there, and its stack can be gone through; an infinity is no such number.  The
entries of a log are taken in order, and the first one that makes no step decides how the reading
ends: it is reported with its index if its program counter or its opcode is to blame, and otherwise
the fault of the field is passed on without an index.  The overflow of an infinite program counter
is passed on as well.

* `reads_position`, `reads_number`, `reads_stack` — the condition for each field;
* `toStep_cases` — an entry makes a step, or one of the two kinds of fault;
* `toSteps_or_fault` — the main result;
* `nullGas_unreported` — a log with an entry whose fault is passed on.
-/
import TraceDebugger.Execution.StructLog
import TraceDebugger.Proofs.Readings

namespace TraceDebugger.StructLog

open Text

/-- A value can be taken for an integer. -/
def IsNumber : Json → Prop
  | .bool _ | .int _ => True
  | .fraction x => ¬ x.isInfinite = true
  | .str text => ∃ n, readInteger 10 text.toList = some n
  | .null | .arr _ | .obj _ => False

/-- A stack can be taken from a value. -/
def IsStack : Json → Prop
  | .null | .str _ | .arr _ | .obj _ => True
  | .bool _ | .int _ | .fraction _ => False

/-- An entry has a program counter and an opcode. -/
def Positioned (entry : Json) : Prop :=
  (∃ pc, entry.get? "pc" = some pc ∧ IsNumber pc) ∧ ∃ op, entry.get? "op" = some op

/-- The program counter of an entry is an infinite number. -/
def HasInfiniteCounter (entry : Json) : Prop :=
  ∃ x, entry.get? "pc" = some (.fraction x) ∧ x.isInfinite = true

/-- A member is as it should be, unless it is missing. -/
def Fits (good : Json → Prop) (name : String) (entry : Json) : Prop :=
  ∀ value, entry.get? name = some value → good value

/-- An entry makes a step. -/
structure MakesStep (entry : Json) : Prop where
  positioned : Positioned entry
  gas : Fits IsNumber "gas" entry
  gasCost : Fits IsNumber "gasCost" entry
  depth : Fits IsNumber "depth" entry
  stack : Fits IsStack "stack" entry

/-- A fault says that an entry is no step, and names its index. -/
def Reports (index : ℕ) (fault : Fault) : Prop :=
  fault.kind.name = "InvalidStepError" ∧
    ∃ reason, fault.details = [("step_index", .int index), ("reason", .str reason)]

/-- A fault is that of a value, and names no index. -/
def IsPassedOn (fault : Fault) : Prop :=
  (fault.kind.name = "TypeError" ∨ fault.kind.name = "ValueError" ∨
    fault.kind.name = "OverflowError") ∧ fault.details = []

/-! ### Fields -/

/-- A value is read as an integer, or it is none. -/
theorem reads_toInt (value : Json) : Reads (IsNumber value) IsPassedOn value.toInt := by
  cases value with
  | bool b => exact .inl ⟨trivial, _, rfl⟩
  | int n => exact .inl ⟨trivial, _, rfl⟩
  | fraction x =>
    -- cutting an infinite number fails with an error that is no `ValueError`
    by_cases hinfinite : x.isInfinite = true
    · exact .inr ⟨not_not_intro hinfinite, .unfit .infinite, by rw [Json.toInt, if_pos hinfinite],
        .inr (.inr rfl), rfl⟩
    · exact .inl ⟨hinfinite, x.truncate, by rw [Json.toInt, if_neg hinfinite]⟩
  | str text =>
    cases hread : readInteger 10 text.toList with
    | none =>
      right
      refine ⟨?_, .unfit (.badInteger text 10), ?_, .inr (.inl rfl), rfl⟩
      · rintro ⟨n, hn⟩
        rw [hread] at hn
        cases hn
      · simp only [Json.toInt, Json.readInt, hread]
    | some n =>
      left
      refine ⟨⟨n, hread⟩, n, ?_⟩
      simp only [Json.toInt, Json.readInt, hread]
  | null => exact .inr ⟨id, _, rfl, .inl rfl, rfl⟩
  | arr items => exact .inr ⟨id, _, rfl, .inl rfl, rfl⟩
  | obj members => exact .inr ⟨id, _, rfl, .inl rfl, rfl⟩

/-- A member that may be missing fits just if its value does where there is one. -/
theorem fits_iff {good : Json → Prop} {name : String} {entry value : Json}
    (h : entry.get? name = some value) : good value ↔ Fits good name entry := by
  simp [Fits, h]

theorem fits_of_none {good : Json → Prop} {name : String} {entry : Json}
    (h : entry.get? name = none) : Fits good name entry := by
  simp [Fits, h]

theorem reads_number (name : String) (missing : Int) (entry : Json) :
    Reads (Fits IsNumber name entry) IsPassedOn (number name missing entry) := by
  cases hvalue : entry.get? name with
  | none => exact .inl ⟨fits_of_none hvalue, missing, by rw [number, hvalue]⟩
  | some value =>
    rw [number, hvalue]
    exact (reads_toInt value).congr (fits_iff hvalue)

theorem reads_stack (entry : Json) :
    Reads (Fits IsStack "stack" entry) IsPassedOn (Entry.ofJson entry).stack.normalized := by
  have hstack : (Entry.ofJson entry).stack = .value ((entry.get? "stack").getD .null) := rfl
  cases hvalue : entry.get? "stack" with
  | none => exact .inl ⟨fits_of_none hvalue, none, by rw [hstack, hvalue]; rfl⟩
  | some value =>
    rw [hstack, hvalue, Option.getD_some]
    refine Reads.congr ?_ (fits_iff hvalue)
    cases value with
    | null => exact .inl ⟨trivial, _, rfl⟩
    | str text => exact .inl ⟨trivial, _, rfl⟩
    | arr items => exact .inl ⟨trivial, _, rfl⟩
    | obj members => exact .inl ⟨trivial, _, rfl⟩
    | bool b => exact .inr ⟨id, _, rfl, .inl rfl, rfl⟩
    | int n => exact .inr ⟨id, _, rfl, .inl rfl, rfl⟩
    | fraction x => exact .inr ⟨id, _, rfl, .inl rfl, rfl⟩

/-- A member that has to be there is found, or it is not there. -/
theorem require_cases (name : String) (entry : Json) :
    (∃ value, entry.get? name = some value ∧ entry.require name = .ok value) ∨
      entry.get? name = none ∧ ∃ fault, entry.require name = .error fault ∧
        isReported fault = true := by
  cases entry with
  | obj members =>
    cases hmember : Json.member? name members with
    | none => exact .inr ⟨hmember, _, by rw [Json.require, hmember], rfl⟩
    | some value => exact .inl ⟨value, hmember, by rw [Json.require, hmember]⟩
  | null => exact .inr ⟨rfl, _, rfl, rfl⟩
  | bool b => exact .inr ⟨rfl, _, rfl, rfl⟩
  | int n => exact .inr ⟨rfl, _, rfl, rfl⟩
  | fraction x => exact .inr ⟨rfl, _, rfl, rfl⟩
  | str text => exact .inr ⟨rfl, _, rfl, rfl⟩
  | arr items => exact .inr ⟨rfl, _, rfl, rfl⟩

/-- How the reading of a position fails: by the overflow of an infinite program counter, or by a
fault that is reported. -/
def Misplaced (entry : Json) (fault : Fault) : Prop :=
  (HasInfiniteCounter entry ∧ fault = .unfit .infinite) ∨
    (¬ HasInfiniteCounter entry ∧ isReported fault = true)

/-- A program counter that is there is read as an integer, or it is misplaced. -/
theorem reads_counter {entry pc : Json} (h : entry.get? "pc" = some pc) :
    Reads (IsNumber pc) (Misplaced entry) pc.toInt := by
  have hfinite : (∀ x, pc ≠ .fraction x) → ¬ HasInfiniteCounter entry := by
    rintro hne ⟨x, hx, -⟩
    exact hne x (Option.some.inj (h.symm.trans hx))
  rcases reads_toInt pc with hok | ⟨hbad, fault, hfault, -⟩
  · exact .inl hok
  refine .inr ⟨hbad, fault, hfault, ?_⟩
  -- what is no number is an infinity, or it is reported like a value of the wrong kind
  cases pc with
  | fraction x =>
    have hinfinite : x.isInfinite = true := not_not.mp hbad
    rw [Json.toInt, if_pos hinfinite] at hfault
    exact .inl ⟨⟨x, h, hinfinite⟩, (Except.error.inj hfault).symm⟩
  | str text =>
    have hnone : readInteger 10 text.toList = none :=
      Option.eq_none_iff_forall_ne_some.mpr (not_exists.mp hbad)
    rw [Json.toInt, Json.readInt, hnone] at hfault
    exact .inr ⟨hfinite nofun, Except.error.inj hfault ▸ rfl⟩
  | bool b => exact absurd trivial hbad
  | int n => exact absurd trivial hbad
  | null => exact .inr ⟨hfinite nofun, Except.error.inj hfault ▸ rfl⟩
  | arr items => exact .inr ⟨hfinite nofun, Except.error.inj hfault ▸ rfl⟩
  | obj members => exact .inr ⟨hfinite nofun, Except.error.inj hfault ▸ rfl⟩

theorem reads_position (entry : Json) :
    Reads (Positioned entry) (Misplaced entry) (position entry) := by
  have hpc : Reads (∃ pc, entry.get? "pc" = some pc ∧ IsNumber pc) (Misplaced entry)
      (entry.require "pc" >>= Json.toInt) := by
    rcases require_cases "pc" entry with ⟨pc, hget, hpc⟩ | ⟨hnone, fault, hfault, hreported⟩
    · rw [bind_of_eq_ok hpc]
      exact (reads_counter hget).congr (by simp [hget])
    · have hmisplaced : Misplaced entry fault :=
        .inr ⟨by simp [HasInfiniteCounter, hnone], hreported⟩
      exact .inr ⟨by simp [hnone], fault, by rw [hfault]; rfl, hmisplaced⟩
  -- a program counter that was read is not infinite, so a missing opcode is reported
  have hop : ∀ pc, (entry.require "pc" >>= Json.toInt) = .ok pc →
      Reads (∃ op, entry.get? "op" = some op) (Misplaced entry) (entry.require "op") := by
    intro pc hread
    rcases require_cases "op" entry with ⟨op, hget, hop⟩ | ⟨hnone, fault, hfault, hreported⟩
    · exact .inl ⟨⟨op, hget⟩, op, hop⟩
    · refine .inr ⟨by simp [hnone], fault, hfault, .inr ⟨?_, hreported⟩⟩
      rintro ⟨x, hx, hinfinite⟩
      rcases hpc with ⟨⟨pc, hget, hnumber⟩, -⟩ | ⟨-, fault, hfault, -⟩
      · rw [hx] at hget
        rw [← Option.some.inj hget] at hnumber
        exact hnumber hinfinite
      · rw [hfault] at hread
        cases hread
  have hposition : position entry = (entry.require "pc" >>= Json.toInt) >>= fun pc =>
      entry.require "op" >>= fun op => .ok (pc, op.display) := by
    rw [position, bind_assoc]
    rfl
  rw [hposition]
  refine (hpc.bind fun pc hread => (hop pc hread).bind fun op _ => .ok (pc, op.display)).congr ?_
  rw [and_true]
  rfl

/-! ### Entries -/

/-- How the reading of an entry that makes no step ends. -/
structure FailsWith (index : ℕ) (entry : Json) (fault : Fault) : Prop where
  no_step : ¬ MakesStep entry
  reports : ¬ Positioned entry → ¬ HasInfiniteCounter entry → Reports index fault
  passed_on : Positioned entry ∨ HasInfiniteCounter entry → IsPassedOn fault
  overflows : HasInfiniteCounter entry → fault.kind.name = "OverflowError"

theorem Positioned.not_infinite {entry : Json} (h : Positioned entry) :
    ¬ HasInfiniteCounter entry := by
  obtain ⟨⟨pc, hpc, hnumber⟩, -⟩ := h
  rintro ⟨x, hx, hinfinite⟩
  rw [← Option.some.inj (hx.symm.trans hpc)] at hnumber
  exact hnumber hinfinite

/-- An entry makes a step, or one of the two kinds of fault. -/
theorem toStep_cases (index : ℕ) (entry : Json) :
    (MakesStep entry ∧ ∃ step, toStep index entry = .ok step) ∨
      ∃ fault, toStep index entry = .error fault ∧ FailsWith index entry fault := by
  rcases reads_position entry with ⟨hpositioned, ⟨pc, op⟩, hposition⟩ |
    ⟨hnot, fault, hfault, hmisplaced⟩
  · -- the other fields are read one after the other, and the first fault is passed on
    have hfields := (reads_number "gas" 0 entry).bind fun gas _ =>
      (reads_number "gasCost" 0 entry).bind fun gasCost _ =>
      (reads_number "depth" 1 entry).bind fun depth _ =>
      (reads_stack entry).bind fun stack _ =>
      (Reads.ok {
        pc, op, gas, gasCost, depth, stack
        memory := (Entry.ofJson entry).memory.memoryText
        storage := optional "storage" entry
        error := optional "error" entry
        address := optional "address" entry
        code := optional "code" entry } : Reads True IsPassedOn (.ok (_ : Step)))
    rw [toStep, Entry.toStep, show position (Entry.ofJson entry).members = _ from hposition]
    rcases hfields with ⟨⟨hgas, hcost, hdepth, hstack, -⟩, hok⟩ | ⟨hbad, fault, hfault, hpassed⟩
    · exact .inl ⟨⟨hpositioned, hgas, hcost, hdepth, hstack⟩, hok⟩
    · refine .inr ⟨fault, hfault, fun h => hbad ?_, fun h => absurd hpositioned h, fun _ => hpassed,
        fun h => absurd h hpositioned.not_infinite⟩
      exact ⟨h.gas, h.gasCost, h.depth, h.stack, trivial⟩
  · -- the position alone decides whether a fault is reported with the index
    have hno_step : ¬ MakesStep entry := fun h => hnot h.positioned
    rw [toStep, Entry.toStep, show position (Entry.ofJson entry).members = _ from hfault]
    rcases hmisplaced with ⟨hinfinite, rfl⟩ | ⟨hfinite, hreported⟩
    · exact .inr ⟨.unfit .infinite, rfl, hno_step, fun _ h => absurd hinfinite h,
        fun _ => ⟨.inr (.inr rfl), rfl⟩, fun _ => rfl⟩
    · exact .inr ⟨.invalidStep index ("missing or malformed field " ++ fault.message),
        congrArg Except.error (if_pos hreported), hno_step, fun _ _ => ⟨rfl, _, rfl⟩,
        fun h => absurd h (not_or_intro hnot hfinite), fun h => absurd h hfinite⟩

/-- The steps are those of the entries, the first one of which has an index. -/
def StepsFrom (first : ℕ) (entries : List Json) (steps : List Step) : Prop :=
  steps.length = entries.length ∧ ∀ index entry, entries[index]? = some entry →
    ∃ step, steps[index]? = some step ∧ toStep ((first + index : ℕ) : Int) entry = .ok step

/-- All entries make steps, or the first one that makes none decides. -/
theorem toStepsFrom_cases (first : ℕ) (entries : List Json) :
    ((∀ entry ∈ entries, MakesStep entry) ∧
      ∃ steps, Entry.toStepsFrom first (entries.map Entry.ofJson) = .ok steps ∧
        StepsFrom first entries steps) ∨
    ∃ index entry fault, entries[index]? = some entry ∧
      (∀ earlier ∈ entries.take index, MakesStep earlier) ∧
      Entry.toStepsFrom first (entries.map Entry.ofJson) = .error fault ∧
      FailsWith (first + index) entry fault := by
  -- on the entries, of which the first one that makes no step ends the reading
  induction entries generalizing first with
  | nil => exact .inl ⟨nofun, [], rfl, rfl, nofun⟩
  | cons entry entries ih =>
    have hcons : Entry.toStepsFrom first ((entry :: entries).map Entry.ofJson)
        = toStep first entry >>= fun step =>
          Entry.toStepsFrom ((first + 1 : ℕ) : Int) (entries.map Entry.ofJson) >>= fun steps =>
            .ok (step :: steps) := rfl
    rw [hcons]
    rcases toStep_cases first entry with ⟨hgood, step, hstep⟩ | ⟨fault, hfault, hfails⟩
    · rw [bind_of_eq_ok hstep]
      rcases ih (first + 1) with
        ⟨hall, steps, hsteps, hlength, heach⟩ | ⟨index, bad, fault, hbad, hbefore, hfault, hfails⟩
      · left
        refine ⟨List.forall_mem_cons.mpr ⟨hgood, hall⟩, step :: steps, ?_, by simp [hlength], ?_⟩
        · rw [bind_of_eq_ok hsteps]
        · rintro (_ | index) other hother
          · obtain rfl : entry = other := by simpa using hother
            exact ⟨step, rfl, hstep⟩
          · obtain ⟨next, hnext, hread⟩ := heach index other (by simpa using hother)
            refine ⟨next, by simpa using hnext, ?_⟩
            rwa [Nat.add_assoc, Nat.add_comm 1] at hread
      · right
        refine ⟨index + 1, bad, fault, by simpa using hbad, ?_, by rw [hfault]; rfl, ?_⟩
        · rw [List.take_succ_cons]
          exact List.forall_mem_cons.mpr ⟨hgood, hbefore⟩
        · rwa [Nat.add_assoc, Nat.add_comm 1] at hfails
    · right
      exact ⟨0, entry, fault, rfl, nofun, by rw [hfault]; rfl, hfails⟩

/-- **All entries make steps, or the first one that makes none decides how the reading ends.**  It
is reported with its index if it has no program counter and opcode.  The overflow of an infinite
program counter and the fault of one of the other fields are passed on, which are not of that kind
and name no index. -/
theorem toSteps_or_fault (entries : List Json) :
    ((∀ entry ∈ entries, MakesStep entry) ∧
      ∃ steps, toSteps entries = .ok steps ∧ StepsFrom 0 entries steps) ∨
    ∃ index entry fault, entries[index]? = some entry ∧
      (∀ earlier ∈ entries.take index, MakesStep earlier) ∧ toSteps entries = .error fault ∧
      FailsWith index entry fault := by
  have hcases := toStepsFrom_cases 0 entries
  simp only [Nat.zero_add] at hcases
  exact hcases

/-- A log whose second entry has a program counter and an opcode, and null for its gas. -/
def nullGasLog : List Json :=
  [.obj [("pc", .int 0), ("op", .str "STOP")],
    .obj [("pc", .int 1), ("op", .str "ADD"), ("gas", .null)]]

/-- The second entry makes no step, and it is not reported. -/
theorem nullGas_unreported :
    (∃ entry, nullGasLog[1]? = some entry ∧ Positioned entry ∧ ¬ MakesStep entry) ∧
      ∃ fault, toSteps nullGasLog = .error fault ∧ fault.kind.name = "TypeError" ∧
        ∀ index, ¬ Reports index fault := by
  refine ⟨⟨_, rfl, ⟨⟨_, rfl, trivial⟩, _, rfl⟩, fun h => h.gas .null rfl⟩, _, rfl, rfl, ?_⟩
  rintro index ⟨hkind, -⟩
  exact absurd hkind (by decide)

end TraceDebugger.StructLog
