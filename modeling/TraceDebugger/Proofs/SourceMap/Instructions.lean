/-
Where the instructions of a code start.

A code is a row of bytes.  What a byte means depends on where the instructions start: each one
starts where the one before it and its data end, so that a byte which looks like an instruction may
be data, and the data of the last instruction may be cut off by the end of the code.

* `Starts` — the program counters at which instructions start;
* `Starts.next_le` — an instruction starts after all data of those before it;
* `starts_or_data` — every byte starts an instruction or is in the data of one;
* `mem_instructions_iff` — the scan finds the starts, and numbers them by how many come before;
* `entryAt_of_starts`, `entryAt_of_not_starts` — so entries are found at the starts alone;
* `instructions_partition` — the main result.
-/
import TraceDebugger.SourceMap.ProgramMap
import TraceDebugger.Proofs.Readings
import Mathlib.Data.Nat.Count

namespace TraceDebugger

namespace Bytecode

/-- An instruction starts at a program counter: at the beginning of the code, or after another
instruction and its data unless the code has ended. -/
inductive Starts (code : List UInt8) : ℕ → Prop
  | first (h : 0 < code.length) : Starts code 0
  | next {pc : ℕ} {op : UInt8} (h : Starts code pc) (hop : code[pc]? = some op)
    (hinside : pc + 1 + immediateSize op < code.length) : Starts code (pc + 1 + immediateSize op)

/-- An offset is in the data of the instruction at a program counter. -/
def DataOf (code : List UInt8) (pc offset : ℕ) : Prop :=
  ∃ op, code[pc]? = some op ∧ pc < offset ∧ offset ≤ pc + immediateSize op

variable {code : List UInt8} {op : UInt8} {pc start offset number : ℕ}

/-! ### Starts and data -/

theorem Starts.lt_length (h : Starts code pc) : pc < code.length := by
  cases h with
  | first h => exact h
  | next _ _ hinside => exact hinside

/-- An instruction starts after all data of those before it. -/
theorem Starts.next_le (h : Starts code start) (hpc : Starts code pc) (hop : code[pc]? = some op)
    (hlt : pc < start) : pc + 1 + immediateSize op ≤ start := by
  induction start using Nat.strong_induction_on generalizing pc op with
  | _ start ih =>
    cases h with
    | first => omega
    | @next before op' hbefore hop' _ =>
      rcases Nat.lt_trichotomy pc before with hless | rfl | hmore
      · have := ih before (by omega) hbefore hpc hop hless
        omega
      · rw [hop] at hop'
        obtain rfl := Option.some.inj hop'
        exact le_rfl
      · -- the other instruction would start in the data of the one before it
        have := ih pc hlt hpc hbefore hop' hmore
        omega

/-- No instruction starts in the data of another one. -/
theorem Starts.not_dataOf (h : Starts code offset) (hpc : Starts code pc) :
    ¬ DataOf code pc offset := by
  rintro ⟨op, hop, hlt, hle⟩
  have := h.next_le hpc hop hlt
  omega

/-- An offset is in the data of one instruction only. -/
theorem DataOf.unique (hpc : Starts code pc) (hstart : Starts code start)
    (h : DataOf code pc offset) (h' : DataOf code start offset) : pc = start := by
  obtain ⟨op, hop, hlt, hle⟩ := h
  obtain ⟨op', hop', hlt', hle'⟩ := h'
  rcases Nat.lt_trichotomy pc start with hless | heq | hmore
  · have := hstart.next_le hpc hop hless
    omega
  · exact heq
  · have := hpc.next_le hstart hop' hmore
    omega

/-- Every byte belongs to an instruction or its data. -/
theorem exists_instruction (h : offset < code.length) :
    ∃ pc op, Starts code pc ∧ code[pc]? = some op ∧ pc ≤ offset ∧
      offset ≤ pc + immediateSize op := by
  induction offset with
  | zero => exact ⟨0, code[0], .first h, List.getElem?_eq_getElem h, le_rfl, Nat.zero_le _⟩
  | succ offset ih =>
    obtain ⟨pc, op, hpc, hop, hle, hle'⟩ := ih (by omega)
    by_cases hdata : offset + 1 ≤ pc + immediateSize op
    · exact ⟨pc, op, hpc, hop, by omega, hdata⟩
    · -- the data have ended, so the next instruction starts here
      have hnext : offset + 1 = pc + 1 + immediateSize op := by omega
      rw [hnext] at h ⊢
      exact ⟨_, _, .next hpc hop h, List.getElem?_eq_getElem h, le_rfl, Nat.le_add_right _ _⟩

/-- Every byte starts an instruction or is in the data of one, and of no other. -/
theorem starts_or_data (h : offset < code.length) :
    (Starts code offset ∧ ∀ pc, Starts code pc → ¬ DataOf code pc offset) ∨
      (¬ Starts code offset ∧ ∃! pc, Starts code pc ∧ DataOf code pc offset) := by
  by_cases hoffset : Starts code offset
  · exact .inl ⟨hoffset, fun pc hpc => hoffset.not_dataOf hpc⟩
  · obtain ⟨pc, op, hpc, hop, hle, hle'⟩ := exists_instruction h
    have hne : pc ≠ offset := by
      rintro rfl
      exact hoffset hpc
    have hdata : DataOf code pc offset := ⟨op, hop, by omega, hle'⟩
    refine .inr ⟨hoffset, pc, ⟨hpc, hdata⟩, ?_⟩
    rintro other ⟨hother, hdata'⟩
    exact DataOf.unique hother hpc hdata' hdata

/-! ### The scan -/

/-- The scan goes on after an instruction and its data. -/
theorem instructionsFrom_drop (hop : code[pc]? = some op) (number : ℕ) :
    instructionsFrom pc number (code.drop pc) = (pc, number) ::
      instructionsFrom (pc + 1 + immediateSize op) (number + 1)
        (code.drop (pc + 1 + immediateSize op)) := by
  obtain ⟨hlt, rfl⟩ := List.getElem?_eq_some_iff.mp hop
  rw [List.drop_eq_getElem_cons hlt, instructionsFrom, List.drop_drop]

/-- It ends with the code. -/
theorem instructionsFrom_of_le (h : code.length ≤ pc) (number : ℕ) :
    instructionsFrom pc number (code.drop pc) = [] := by
  rw [List.drop_of_length_le h, instructionsFrom]

/-- To prove something of a scan, prove it of one that has come to the end of the code, and of one
that goes on after an instruction and its data. -/
theorem scan_induction (code : List UInt8) {motive : ℕ → ℕ → Prop}
    (ended : ∀ pc number, code.length ≤ pc → motive pc number)
    (next : ∀ pc number op, code[pc]? = some op →
      motive (pc + 1 + immediateSize op) (number + 1) → motive pc number) (pc number : ℕ) :
    motive pc number := by
  by_cases hlt : pc < code.length
  · exact next pc number code[pc] (List.getElem?_eq_getElem hlt)
      (scan_induction code ended next (pc + 1 + immediateSize code[pc]) (number + 1))
  · exact ended pc number (Nat.le_of_not_lt hlt)
termination_by code.length - pc

/-- A scan that has come to the start of an instruction finds all starts from there on. -/
theorem exists_mem_instructionsFrom (hpc : pc < code.length → Starts code pc)
    (h : Starts code start) (hle : pc ≤ start) :
    ∃ found, (start, found) ∈ instructionsFrom pc number (code.drop pc) := by
  have hend := h.lt_length
  induction pc, number using scan_induction code with
  | ended pc number hlength => omega
  | next pc number op hop ih =>
    have hstart := hpc (by omega)
    rw [instructionsFrom_drop hop]
    rcases Nat.eq_or_lt_of_le hle with rfl | hless
    · exact ⟨number, List.mem_cons_self⟩
    · obtain ⟨found, hfound⟩ := ih (.next hstart hop) (h.next_le hstart hop hless)
      exact ⟨found, List.mem_cons_of_mem _ hfound⟩

/-- As many instructions start before the end of the data of an instruction as start before it, and
itself. -/
theorem Starts.count_next [DecidablePred (Starts code)] (hpc : Starts code pc)
    (hop : code[pc]? = some op) :
    Nat.count (Starts code) (pc + 1 + immediateSize op) = Nat.count (Starts code) pc + 1 := by
  have hdata : Nat.count (fun k => Starts code (pc + 1 + k)) (immediateSize op) = 0 := by
    rw [Nat.count_iff_forall_not]
    intro k hk hstart
    have := hstart.next_le hpc hop (by omega)
    omega
  rw [Nat.count_add, hdata, Nat.count_succ_eq_succ_count hpc, Nat.add_zero]

/-- A scan that numbers one start by how many come before it does so with all that follow. -/
theorem starts_of_mem_instructionsFrom [DecidablePred (Starts code)]
    (hpc : pc < code.length → Starts code pc ∧ number = Nat.count (Starts code) pc)
    {entry : ℕ × ℕ} (h : entry ∈ instructionsFrom pc number (code.drop pc)) :
    Starts code entry.1 ∧ entry.2 = Nat.count (Starts code) entry.1 := by
  induction pc, number using scan_induction code with
  | ended pc number hlength =>
    rw [instructionsFrom_of_le hlength] at h
    cases h
  | next pc number op hop ih =>
    obtain ⟨hstart, hnumber⟩ := hpc (List.getElem?_eq_some_iff.mp hop).1
    rw [instructionsFrom_drop hop] at h
    rcases List.mem_cons.mp h with rfl | h
    · exact ⟨hstart, hnumber⟩
    · refine ih (fun hinside => ⟨.next hstart hop hinside, ?_⟩) h
      rw [hstart.count_next hop, hnumber]

theorem mem_instructions_iff [DecidablePred (Starts code)] :
    (pc, number) ∈ instructions code ↔
      Starts code pc ∧ number = Nat.count (Starts code) pc := by
  have hfirst : instructions code = instructionsFrom 0 0 (code.drop 0) := rfl
  have hsound : ∀ {entry}, entry ∈ instructions code →
      Starts code entry.1 ∧ entry.2 = Nat.count (Starts code) entry.1 := by
    intro entry h
    exact starts_of_mem_instructionsFrom (fun hpos => ⟨.first hpos, (Nat.count_zero _).symm⟩) h
  constructor
  · exact fun h => hsound h
  · rintro ⟨hpc, rfl⟩
    obtain ⟨found, hfound⟩ := exists_mem_instructionsFrom .first hpc (Nat.zero_le pc)
    obtain rfl : found = Nat.count (Starts code) pc := (hsound hfound).2
    exact hfound

/-- Whether an instruction starts at a program counter is found by a scan. -/
instance (code : List UInt8) : DecidablePred (Starts code) := fun pc =>
  decidable_of_iff (pc ∈ (instructions code).map Prod.fst) <| by
    classical
    constructor
    · intro h
      obtain ⟨entry, hentry, rfl⟩ := List.mem_map.mp h
      exact (mem_instructions_iff.mp hentry).1
    · intro h
      exact List.mem_map.mpr ⟨_, mem_instructions_iff.mpr ⟨h, rfl⟩, rfl⟩

end Bytecode

/-! ### Entries -/

namespace ProgramMap

open Bytecode

variable {map : ProgramMap} {code : List UInt8} {pc : ℕ}

/-- A map has the instructions of a code. -/
def Maps (map : ProgramMap) (code : List UInt8) : Prop :=
  map.instructionAt = (instructions code).map fun (pc, number) => (pc, number)

theorem mem_instructionAt_iff (h : map.Maps code) {entry : Int × Int} :
    entry ∈ map.instructionAt ↔
      ∃ pc : ℕ, Starts code pc ∧ entry = (↑pc, ↑(Nat.count (Starts code) pc)) := by
  rw [h, List.mem_map]
  constructor
  · rintro ⟨⟨pc, number⟩, hmem, rfl⟩
    obtain ⟨hpc, rfl⟩ := mem_instructions_iff.mp hmem
    exact ⟨pc, hpc, rfl⟩
  · rintro ⟨pc, hpc, rfl⟩
    exact ⟨(pc, _), mem_instructions_iff.mpr ⟨hpc, rfl⟩, rfl⟩

/-- The entry of an instruction has the number of the instruction. -/
theorem entryAt_of_starts (h : map.Maps code) (hpc : Starts code pc) :
    map.entryAt pc = .ok map.entries[Nat.count (Starts code) pc]? := by
  have hmem := (mem_instructionAt_iff h).mpr ⟨pc, hpc, rfl⟩
  have hsome : (map.instructionAt.find? fun entry => entry.1 == (pc : Int)).isSome := by
    rw [List.find?_isSome]
    exact ⟨_, hmem, beq_self_eq_true _⟩
  obtain ⟨entry, hentry⟩ := Option.isSome_iff_exists.mp hsome
  obtain ⟨start, hstart, rfl⟩ := (mem_instructionAt_iff h).mp (List.mem_of_find?_eq_some hentry)
  have hkey := List.find?_some hentry
  obtain rfl : start = pc := Int.natCast_inj.mp (eq_of_beq hkey)
  rw [entryAt, instructionNumber?, hentry]
  rfl

/-- No entry is found where no instruction starts. -/
theorem entryAt_of_not_starts (h : map.Maps code) {pc : Int}
    (hpc : ∀ start, Starts code start → (start : Int) ≠ pc) : map.entryAt pc = .ok none := by
  have hnone : (map.instructionAt.find? fun entry => entry.1 == pc) = none := by
    rw [List.find?_eq_none]
    intro entry hentry
    obtain ⟨start, hstart, rfl⟩ := (mem_instructionAt_iff h).mp hentry
    simpa using hpc start hstart
  rw [entryAt, instructionNumber?, hnone]
  rfl

/-- The map of a code and a source map has the instructions of the one and the entries of the
other. -/
theorem exists_ofBytes (name : String) (code : List UInt8) {text : String} (sources : List String)
    {entries : List MapEntry} (h : SourceMap.parse text = .ok entries) :
    ∃ map, ofBytes name code text sources = .ok map ∧ map.Maps code ∧ map.entries = entries := by
  refine ⟨_, bind_of_eq_ok h _, rfl, rfl⟩

/-- **The instructions divide the code.**  The scan finds exactly the program counters at which
instructions start, each with the number of those before it; and every byte either starts an
instruction or is in the data of exactly one.  So in the map of a code and a source map that is
read, whether the code is given in bytes or in digits, the entry of an instruction is the one of its
number, if there are so many, and there is none where no instruction starts. -/
theorem instructions_partition (code : List UInt8) :
    (∀ pc number, (pc, number) ∈ instructions code ↔
      Starts code pc ∧ number = Nat.count (Starts code) pc) ∧
    (∀ offset < code.length,
      (Starts code offset ∧ ∀ pc, Starts code pc → ¬ DataOf code pc offset) ∨
        (¬ Starts code offset ∧ ∃! pc, Starts code pc ∧ DataOf code pc offset)) ∧
    ∀ (name text : String) (sources : List String) (entries : List MapEntry),
      SourceMap.parse text = .ok entries →
      ∃ map, ofBytes name code text sources = .ok map ∧
        (∀ digits, codeBytes name digits = .ok code →
          ofCompiler name digits text sources = .ok map) ∧
        (∀ pc : ℕ, Starts code pc →
          map.entryAt pc = .ok entries[Nat.count (Starts code) pc]?) ∧
        ∀ pc : Int, (∀ start : ℕ, Starts code start → (start : Int) ≠ pc) →
          map.entryAt pc = .ok none := by
  refine ⟨fun pc number => mem_instructions_iff, fun offset h => starts_or_data h, ?_⟩
  intro name text sources entries hentries
  obtain ⟨map, hmap, hcode, rfl⟩ := exists_ofBytes name code sources hentries
  refine ⟨map, hmap, fun digits hdigits => ?_, fun pc hpc => entryAt_of_starts hcode hpc,
    fun pc hpc => entryAt_of_not_starts hcode hpc⟩
  rw [ofCompiler, bind_of_eq_ok hdigits, hmap]

/-- A code of three instructions: a push of a byte that looks like a push, a sum, and a push whose
data are cut off by the end. -/
def cutCode : List UInt8 := [0x60, 0x60, 0x01, 0x61, 0x02]

/-- The second byte is data of the first, and the last one of the push before it; the third
instruction has no entry in a source map of two. -/
theorem cutCode_partition :
    instructions cutCode = [(0, 0), (2, 1), (3, 2)] ∧ DataOf cutCode 3 4 ∧
    (¬ Starts cutCode 1 ∧ ∃! pc, Starts cutCode pc ∧ DataOf cutCode pc 1) ∧
    ∃ map, ofCompiler "Cut" "0x6060016102" "0:10:0;24:12:0:i" [] = .ok map ∧
      map.entryAt 2 = .ok (some ⟨24, 12, 0, .into, 0⟩) ∧ map.entryAt 3 = .ok none ∧
      map.entryAt 4 = .ok none := by
  obtain ⟨-, hdata, hmaps⟩ := instructions_partition cutCode
  have hentries : SourceMap.parse "0:10:0;24:12:0:i" =
    .ok [⟨0, 10, 0, .regular, 0⟩, ⟨24, 12, 0, .into, 0⟩] := rfl
  have hdigits : codeBytes "Cut" "0x6060016102" = .ok cutCode := rfl
  obtain ⟨map, -, hcompiler, hstarts, hnone⟩ := hmaps "Cut" _ [] _ hentries
  -- the first push takes its data from 1, and the second would take it from 3 and 4
  have hone : ¬ Starts cutCode 1 := by decide +kernel
  have hfour : ¬ Starts cutCode 4 := by decide +kernel
  refine ⟨by decide +kernel, ⟨0x61, rfl, by decide, by decide⟩,
    (hdata 1 (by decide)).resolve_left fun h => hone h.1, map, hcompiler _ hdigits, ?_, ?_, ?_⟩
  · have hcount : Nat.count (Starts cutCode) 2 = 1 := by decide +kernel
    have hentry := hstarts 2 (by decide +kernel)
    rw [hcount] at hentry
    exact hentry
  · have hcount : Nat.count (Starts cutCode) 3 = 2 := by decide +kernel
    have hentry := hstarts 3 (by decide +kernel)
    rw [hcount] at hentry
    exact hentry
  · refine hnone 4 fun start hstart heq => hfour ?_
    obtain rfl : start = 4 := Int.natCast_inj.mp heq
    exact hstart

end ProgramMap

end TraceDebugger
