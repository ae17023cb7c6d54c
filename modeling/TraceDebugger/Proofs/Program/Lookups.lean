/-
Programs are found by what was added last.

A registry is filled by additions, one after another.  Each is kept under the key of its address and
under that of its creation code, so far as it has them, and takes the place of an earlier one of the
same key.  What stands in for an unknown program is settled by the first addition at the latest.

* `sameKey_iff` — two texts that are not empty have the same key if they differ in case at most;
* `find?_enter` — what is found after one more entry;
* `find?_table` — what is found after many: the latest one of the key that is asked for;
* `lookup_eq_iff` — what is found by an address and a creation code;
* `lookup_of_perm` — additions with different keys can change places;
* `lookup_ofAdditions` — the main result.
-/
import Mathlib.Data.List.Induction
import TraceDebugger.Program.Registry
import TraceDebugger.Proofs.Execution.Checksum
import TraceDebugger.Proofs.SyntaxTree.Tables

namespace TraceDebugger

/-- A program that is added under an address and a creation code, either of which may be missing. -/
structure Addition (α : Type) where
  program : α
  address : Option String := none
  binary : Option String := none

namespace Registry

variable {α : Type} {first second query : Option String}

/-! ### Keys -/

theorem key?_alike (h : Option.Rel Text.Alike first second) : key? first = key? second := by
  cases h with
  | none => rfl
  | @some a b h =>
    have hempty : a = "" ↔ b = "" := by
      rw [← Text.lower_eq_empty_iff a, ← Text.lower_eq_empty_iff b, h]
    simp only [key?, hempty, show Text.lower a = Text.lower b from h]

/-- Programs are found by an address in any spelling. -/
theorem lookup_alike (h : Option.Rel Text.Alike first second) (binary : Option String)
    (registry : Registry α) : registry.lookup first binary = registry.lookup second binary := by
  simp only [lookup, find?, key?_alike h]

theorem key?_eq_some_iff {key : String} :
    key? first = some key ↔ ∃ a ∈ first, a ≠ "" ∧ Text.lower a = key := by
  cases first with
  | none => simp [key?]
  | some a => by_cases ha : a = "" <;> simp [key?, ha]

/-- A text that is not empty is asked for, and the one that is given is the same up to case. -/
def SameKey (query text : Option String) : Prop :=
  ∃ a ∈ query, a ≠ "" ∧ ∃ b ∈ text, Text.Alike a b

instance : Decidable (SameKey first second) :=
  inferInstanceAs (Decidable (∃ a ∈ first, a ≠ "" ∧ ∃ b ∈ second, Text.lower a = Text.lower b))

theorem sameKey_iff :
    SameKey first second ↔ ∃ key, key? first = some key ∧ key? second = some key := by
  constructor
  · rintro ⟨a, rfl, ha, b, rfl, hab⟩
    have hfirst : key? (some a) = some (Text.lower a) := key?_eq_some_iff.mpr ⟨a, rfl, ha, rfl⟩
    exact ⟨Text.lower a, hfirst, key?_alike (.some hab) ▸ hfirst⟩
  · rintro ⟨key, hfirst, hsecond⟩
    obtain ⟨a, ha, hne, rfl⟩ := key?_eq_some_iff.mp hfirst
    obtain ⟨b, hb, -, hba⟩ := key?_eq_some_iff.mp hsecond
    exact ⟨a, ha, hne, b, hb, hba.symm⟩

theorem SameKey.symm (h : SameKey first second) : SameKey second first := by
  obtain ⟨key, hfirst, hsecond⟩ := sameKey_iff.mp h
  exact sameKey_iff.mpr ⟨key, hsecond, hfirst⟩

/-- Two texts that are found by the same one have the same key. -/
theorem SameKey.of_query (hfirst : SameKey query first) (hsecond : SameKey query second) :
    SameKey first second := by
  obtain ⟨key, hkey, hfirst⟩ := sameKey_iff.mp hfirst
  obtain ⟨_, hkey', hsecond⟩ := sameKey_iff.mp hsecond
  obtain rfl := Option.some.inj (hkey.symm.trans hkey')
  exact sameKey_iff.mpr ⟨_, hfirst, hsecond⟩

/-! ### Tables -/

/-- A new entry is found under its own key, and what was there under all others. -/
theorem find?_enter (query text : Option String) (value : α) (table : List (String × α)) :
    find? query (enter text value table)
      = if SameKey query text then some value else find? query table := by
  simp only [sameKey_iff, find?, enter]
  cases hquery : key? query with
  | none => simp
  | some key =>
    cases htext : key? text with
    | none => simp
    | some other =>
      by_cases hkey : other = key
      · simp [hkey]
      · simp [hkey, SyntaxTree.valueOf?_setEntry_of_ne (Ne.symm hkey)]

section Tables

variable {text : Addition α → Option String} {additions : List (Addition α)} {x : Addition α}

/-- The table of the programs that are added, by one of their texts. -/
def table (text : Addition α → Option String) (additions : List (Addition α)) :
    List (String × α) :=
  additions.foldl (fun table addition => enter (text addition) addition.program table) []

/-- The latest addition under the key of a text. -/
def latest? (query : Option String) (text : Addition α → Option String)
    (additions : List (Addition α)) : Option (Addition α) :=
  (additions.filter fun addition => SameKey query (text addition)).getLast?

/-- What is found after many additions is the latest one of the key that is asked for. -/
theorem find?_table (query : Option String) (text : Addition α → Option String)
    (additions : List (Addition α)) :
    find? query (table text additions) = (latest? query text additions).map Addition.program := by
  -- from the end: only the last addition can hide another one
  induction additions using List.reverseRecOn with
  | nil => exact Option.bind_fun_none _
  | append_singleton additions last ih =>
    rw [table, List.foldl_concat, ← table, find?_enter, ih, latest?, latest?, List.filter_append]
    by_cases hlast : SameKey query (text last) <;> simp [hlast]

/-- An addition is the latest one under the key of a text. -/
def IsLatest (query : Option String) (text : Addition α → Option String)
    (additions : List (Addition α)) (x : Addition α) : Prop :=
  ∃ before after, additions = before ++ x :: after ∧ SameKey query (text x) ∧
    ∀ later ∈ after, ¬ SameKey query (text later)

theorem latest?_eq_some_iff :
    latest? query text additions = some x ↔ IsLatest query text additions x := by
  constructor
  · intro h
    obtain ⟨front, hfront⟩ := List.getLast?_eq_some_iff.mp h
    obtain ⟨before, rest, rfl, -, hrest⟩ := List.filter_eq_append_iff.mp hfront
    obtain ⟨between, after, rfl, -, hx, hafter⟩ := List.filter_eq_cons_iff.mp hrest
    refine ⟨before ++ between, after, (List.append_assoc ..).symm, of_decide_eq_true hx, ?_⟩
    intro later hlater
    simpa using List.filter_eq_nil_iff.mp hafter later hlater
  · rintro ⟨before, after, rfl, hx, hafter⟩
    have hnone : after.filter (fun addition => SameKey query (text addition)) = [] :=
      List.filter_eq_nil_iff.mpr fun later hlater => by simpa using hafter later hlater
    rw [latest?, List.filter_append, List.filter_cons_of_pos (by simpa using hx), hnone,
      List.getLast?_append_cons, List.getLast?_singleton]

theorem latest?_eq_none_iff :
    latest? query text additions = none ↔ ∀ x ∈ additions, ¬ SameKey query (text x) := by
  simp [latest?]

/-- Of additions with different keys one at most is found by a text, wherever it stands. -/
theorem latest?_of_perm {batch reordered : List (Addition α)} (hperm : batch.Perm reordered)
    (hapart : batch.Pairwise fun x y => ¬ SameKey (text x) (text y)) (query : Option String)
    (earlier later : List (Addition α)) :
    latest? query text (earlier ++ batch ++ later)
      = latest? query text (earlier ++ reordered ++ later) := by
  have hreordered := hperm.pairwise hapart fun h hsame => h hsame.symm
  have hfound : batch.filter (fun x => SameKey query (text x))
      = reordered.filter fun x => SameKey query (text x) := by
    refine (hperm.filter _).eq_of_pairwise ?_ (hapart.filter _) (hreordered.filter _)
    intro x y hx hy hne _
    have hx := of_decide_eq_true (List.mem_filter.mp hx).2
    have hy := of_decide_eq_true (List.mem_filter.mp hy).2
    exact absurd (hx.of_query hy) hne
  simp only [latest?, List.filter_append, hfound]

end Tables

/-! ### Registries -/

/-- A registry to which programs have been added, one after another. -/
def ofAdditions (fallback : Option α) (additions : List (Addition α)) : Registry α :=
  additions.foldl
    (fun registry addition => registry.add addition.program addition.address addition.binary)
    { fallback }

theorem byAddress_ofAdditions (fallback : Option α) (additions : List (Addition α)) :
    (ofAdditions fallback additions).byAddress = table Addition.address additions :=
  (List.foldl_hom byAddress fun _ _ => rfl).symm

theorem byBinary_ofAdditions (fallback : Option α) (additions : List (Addition α)) :
    (ofAdditions fallback additions).byBinary = table Addition.binary additions :=
  (List.foldl_hom byBinary fun _ _ => rfl).symm

/-- What stands in for an unknown program once some have been added. -/
def standIn (fallback : Option α) (additions : List (Addition α)) : Option α :=
  fallback.or (additions.head?.map Addition.program)

theorem fallback_ofAdditions (fallback : Option α) (additions : List (Addition α)) :
    (ofAdditions fallback additions).fallback = standIn fallback additions := by
  induction additions using List.reverseRecOn with
  | nil => exact Option.or_none.symm
  | append_singleton additions last ih =>
    rw [ofAdditions, List.foldl_concat, ← ofAdditions, add, ih, standIn, standIn, Option.or_assoc]
    cases additions <;> rfl

theorem standIn_append {fallback : Option α} {earlier : List (Addition α)}
    (h : fallback.isSome ∨ earlier ≠ []) (later : List (Addition α)) :
    standIn fallback (earlier ++ later) = standIn fallback earlier := by
  obtain hsome | hne := h
  · obtain ⟨program, rfl⟩ := Option.isSome_iff_exists.mp hsome
    rfl
  · rw [standIn, standIn, List.head?_append_of_ne_nil _ hne]

theorem lookup_eq_latest? (fallback : Option α) (additions : List (Addition α))
    (address binary : Option String) :
    (ofAdditions fallback additions).lookup address binary =
      (((latest? address Addition.address additions).or
        (latest? binary Addition.binary additions)).map Addition.program).or
          (standIn fallback additions) := by
  rw [lookup, byAddress_ofAdditions, byBinary_ofAdditions, fallback_ofAdditions, find?_table,
    find?_table, Option.map_or]

/-- What is found by an address and a creation code. -/
inductive Finds (fallback : Option α) (additions : List (Addition α))
    (address binary : Option String) : Option α → Prop
  /-- The program of the latest addition under the address. -/
  | byAddress {x : Addition α} (h : IsLatest address Addition.address additions x) :
      Finds fallback additions address binary (some x.program)
  /-- Without one, that of the latest addition under the creation code. -/
  | byBinary {x : Addition α} (haddress : ∀ y ∈ additions, ¬ SameKey address y.address)
      (h : IsLatest binary Addition.binary additions x) :
      Finds fallback additions address binary (some x.program)
  /-- Without either, what stands in: the program that was chosen, or else the first one, if any. -/
  | standIn (haddress : ∀ y ∈ additions, ¬ SameKey address y.address)
      (hbinary : ∀ y ∈ additions, ¬ SameKey binary y.binary) :
      Finds fallback additions address binary (standIn fallback additions)

theorem lookup_eq_iff (fallback : Option α) (additions : List (Addition α))
    (address binary : Option String) (answer : Option α) :
    (ofAdditions fallback additions).lookup address binary = answer ↔
      Finds fallback additions address binary answer := by
  rw [lookup_eq_latest?]
  constructor
  · rintro rfl
    -- the address comes before the creation code, and both before what stands in
    cases haddress : latest? address Addition.address additions with
    | some x => exact .byAddress (latest?_eq_some_iff.mp haddress)
    | none =>
      have haddress := latest?_eq_none_iff.mp haddress
      cases hbinary : latest? binary Addition.binary additions with
      | some x => exact .byBinary haddress (latest?_eq_some_iff.mp hbinary)
      | none => exact .standIn haddress (latest?_eq_none_iff.mp hbinary)
  · intro h
    cases h with
    | byAddress h =>
      rw [latest?_eq_some_iff.mpr h]
      rfl
    | byBinary haddress h =>
      rw [latest?_eq_none_iff.mpr haddress, latest?_eq_some_iff.mpr h]
      rfl
    | standIn haddress hbinary =>
      rw [latest?_eq_none_iff.mpr haddress, latest?_eq_none_iff.mpr hbinary]
      rfl

/-- Two additions have no key in common. -/
structure Apart (x y : Addition α) : Prop where
  address : ¬ SameKey x.address y.address
  binary : ¬ SameKey x.binary y.binary

instance {x y : Addition α} : Decidable (Apart x y) :=
  decidable_of_iff (¬ SameKey x.address y.address ∧ ¬ SameKey x.binary y.binary)
    ⟨fun h => ⟨h.1, h.2⟩, fun h => ⟨h.address, h.binary⟩⟩

/-- Additions with different keys can change places once it is settled what stands in for an unknown
program. -/
theorem lookup_of_perm {fallback : Option α} {earlier batch reordered : List (Addition α)}
    (hsettled : fallback.isSome ∨ earlier ≠ []) (hperm : batch.Perm reordered)
    (hapart : batch.Pairwise Apart) (later : List (Addition α)) (address binary : Option String) :
    (ofAdditions fallback (earlier ++ batch ++ later)).lookup address binary
      = (ofAdditions fallback (earlier ++ reordered ++ later)).lookup address binary := by
  have haddress := latest?_of_perm hperm (hapart.imp Apart.address) address earlier later
  have hbinary := latest?_of_perm hperm (hapart.imp Apart.binary) binary earlier later
  rw [lookup_eq_latest?, lookup_eq_latest?, haddress, hbinary, List.append_assoc, List.append_assoc,
    standIn_append hsettled, standIn_append hsettled]

/-- **The latest program is found, and the order of unrelated ones is not seen.**  Whatever program
was chosen to stand in for unknown ones, if any, and whatever programs have been added under
whatever addresses and creation codes: a lookup finds the program of the latest addition whose
address is the one that is asked for, letter case apart; without one, that of the latest addition
whose creation code is; and otherwise what was chosen, or else the first program, or nothing at all.
After the first addition, or if a program was chosen, additions of which no two have a key in common
can be made in any order, whatever else is added before and after them. -/
theorem lookup_ofAdditions (fallback : Option α) :
    (∀ (additions : List (Addition α)) (address binary : Option String) (answer : Option α),
      (ofAdditions fallback additions).lookup address binary = answer ↔
        Finds fallback additions address binary answer) ∧
    ∀ earlier batch reordered later : List (Addition α), fallback.isSome ∨ earlier ≠ [] →
      batch.Perm reordered → batch.Pairwise Apart → ∀ address binary,
        (ofAdditions fallback (earlier ++ batch ++ later)).lookup address binary
          = (ofAdditions fallback (earlier ++ reordered ++ later)).lookup address binary :=
  ⟨lookup_eq_iff fallback, fun _ _ _ later hsettled hperm hapart =>
    lookup_of_perm hsettled hperm hapart later⟩

/-- A program that is added first. -/
def proxy : Addition String := { program := "Proxy", address := some "0xAB" }

/-- Three programs with different keys, the first of which takes the place of the proxy. -/
def trio : List (Addition String) :=
  [{ program := "Vault", address := some "0xaB", binary := some "0x6001" },
    { program := "Token", address := some "", binary := some "0x60FE" }, { program := "Plain" }]

/-- A program that takes the place of the second of them. -/
def fork : Addition String := { program := "Fork", binary := some "0x60fe" }

/-- The reverse order of the three changes no lookup, and the first program still stands in. -/
theorem lookup_reordered_trio :
    ((none : Option String).isSome ∨ [proxy] ≠ []) ∧ trio.Perm trio.reverse ∧
      trio.Pairwise Apart ∧
      (ofAdditions none ([proxy] ++ trio.reverse ++ [fork])).lookup (some "0xAb") (some "0x60fe")
        = some "Vault" ∧
      (ofAdditions none ([proxy] ++ trio.reverse ++ [fork])).lookup (some "0xcd") (some "0x60FE")
        = some "Fork" ∧
      (ofAdditions none ([proxy] ++ trio.reverse ++ [fork])).lookup (some "") none
        = some "Proxy" := by
  have hsettled : (none : Option String).isSome ∨ [proxy] ≠ [] := .inr (List.cons_ne_nil _ _)
  have hperm : trio.Perm trio.reverse := trio.reverse_perm.symm
  have hapart : trio.Pairwise Apart := by decide
  have hsame := (lookup_ofAdditions none).2 [proxy] trio trio.reverse [fork] hsettled hperm hapart
  refine ⟨hsettled, hperm, hapart, ?_, ?_, ?_⟩
  · rw [← hsame]
    decide
  · rw [← hsame]
    decide
  · rw [← hsame]
    decide

end Registry

end TraceDebugger
