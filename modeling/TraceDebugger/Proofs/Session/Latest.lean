/-
Where the latest step has put a variable.

Three kinds of nodes put variables somewhere: the declaration of a variable puts it on top of the
stack, a function puts its return parameters and parameters below one another, and a contract puts
the variables of its scope into storage.

* `SyntaxTree.tells_iff` — what a node tells of a variable, by its kind;
* `locates_iff_puts` — what a step tells of it;
* `latest_binding` — where a variable of a tree lives at a cursor, and that a step leaves the
  variables of all other trees alone.
-/
import TraceDebugger.Proofs.Session.Bindings

namespace TraceDebugger

open SyntaxTree (valueOf?)

/-! ### What a node tells -/

namespace Locations

/-- A table of entries has every identity once. -/
theorem nodup_ofEntries (entries : Locations) : ((ofEntries entries).map Prod.fst).Nodup := by
  induction entries using List.reverseRecOn with
  | nil => exact List.nodup_nil
  | append_singleton entries entry ih =>
    rw [ofEntries_concat]
    exact SyntaxTree.nodup_setEntry ih _ _

theorem valueOf?_map_storage (places : List (NodeId × Storage.Place)) (id : NodeId) :
    valueOf? id (places.map fun (id, place) => (id, Location.storage place))
      = (valueOf? id places).map .storage := by
  induction places with
  | nil => rfl
  | cons entry places ih =>
    rw [List.map_cons, SyntaxTree.valueOf?_cons, SyntaxTree.valueOf?_cons, ih]
    by_cases hkey : entry.1 = id <;> simp [hkey]

end Locations

namespace SyntaxTree

variable {tree : SyntaxTree} {node : Node} {top : Int} {locations : Locations} {id : NodeId}
  {location : Location}

/-- The last rank of an identity among some. -/
def IsLastRank (ids : List NodeId) (id : NodeId) (rank : Nat) : Prop :=
  ids[rank]? = some id ∧ ∀ later, rank < later → ids[later]? ≠ some id

theorem isLastRank_concat_self (front : List NodeId) (last : NodeId) (rank : Nat) :
    IsLastRank (front ++ [last]) last rank ↔ rank = front.length := by
  constructor
  · rintro ⟨hrank, hlast⟩
    obtain ⟨hlt, -⟩ := List.getElem?_eq_some_iff.mp hrank
    rw [List.length_append, List.length_singleton] at hlt
    by_contra hne
    exact hlast front.length (by omega) List.getElem?_concat_length
  · rintro rfl
    refine ⟨List.getElem?_concat_length, fun later hlater hfound => ?_⟩
    obtain ⟨hlt, -⟩ := List.getElem?_eq_some_iff.mp hfound
    rw [List.length_append, List.length_singleton] at hlt
    omega

theorem isLastRank_concat_of_ne {front : List NodeId} {last : NodeId} (h : id ≠ last) (rank : Nat) :
    IsLastRank (front ++ [last]) id rank ↔ IsLastRank front id rank := by
  have hsame : ∀ other : Nat, (front ++ [last])[other]? = some id ↔ front[other]? = some id := by
    intro other
    rcases Nat.lt_trichotomy other front.length with hlt | rfl | hgt
    · rw [List.getElem?_append_left hlt]
    · simp [h.symm]
    · rw [List.getElem?_eq_none (by simp; omega), List.getElem?_eq_none (by omega)]
  simp only [IsLastRank, hsame, ne_eq]

/-- The slot of a declaration of a function is that of its last rank. -/
theorem valueOf?_slotsFrom_iff {ids : List NodeId} :
    valueOf? id (Locations.ofEntries (slotsFrom top 0 ids)) = some location ↔
      ∃ rank, IsLastRank ids id rank ∧ location = .stack (top - (rank : Int)) := by
  -- from the end: a later entry takes the place of an earlier one of the same identity
  induction ids using List.reverseRecOn with
  | nil =>
    constructor
    · nofun
    · rintro ⟨rank, ⟨hrank, -⟩, -⟩
      cases hrank
  | append_singleton front last ih =>
    rw [slotsFrom_concat, Locations.ofEntries_concat]
    by_cases hid : id = last
    · subst hid
      simp only [valueOf?_setEntry_self, isLastRank_concat_self, exists_eq_left, Option.some.injEq]
      exact eq_comm
    · rw [valueOf?_setEntry_of_ne hid, ih]
      simp only [isLastRank_concat_of_ne hid]

/-- What a node tells of a variable where the top of the stack is at an index. -/
inductive Tells (tree : SyntaxTree) (node : Node) (top : Int) (id : NodeId) : Location → Prop
  /-- Its own declaration puts it on top of the stack. -/
  | declaration (hkind : node.kind = .variableDeclaration) (hid : node.id = id) :
      Tells tree node top id (.stack top)
  /-- A function puts it as far below as its return parameters and then its parameters count. -/
  | parameter {ids : List NodeId} {rank : Nat} (hkind : node.kind = .function)
      (hids : tree.declarations node = .ok ids) (hrank : IsLastRank ids id rank) :
      Tells tree node top id (.stack (top - (rank : Int)))
  /-- A contract puts it where the layout of its scope does. -/
  | stateVariable {members : List ScopeVariable} {allocation : Storage.Allocation}
      {place : Storage.Place} (hkind : node.kind = .contract)
      (hmembers : tree.membersOf node.id = .ok members)
      (hallocation : Storage.allocate tree.definitions (members.map ScopeVariable.toJson)
        = .ok allocation)
      (hplace : valueOf? id allocation.places = some place) :
      Tells tree node top id (.storage place)

theorem Tells.kind_ne (h : tree.Tells node top id location) : node.kind ≠ .other := by
  intro hother
  cases h with
  | declaration hkind | parameter hkind | stateVariable hkind => cases hkind.symm.trans hother

/-- The locations of a node are what it tells. -/
theorem tells_iff (h : tree.locationsAt node top = .ok (some locations)) :
    valueOf? id (Locations.ofEntries locations) = some location ↔
      tree.Tells node top id location := by
  -- a declaration, a function with its parameters, and a contract with its state variables
  obtain ⟨hkind, rfl⟩ | ⟨hkind, ids, hids, rfl⟩ |
    ⟨hkind, members, allocation, hmembers, hallocation, rfl⟩ := locationsAt_cases h
  · rw [Locations.ofEntries_eq_self (by simp), valueOf?_cons]
    constructor
    · intro hfound
      split at hfound
      · obtain rfl := Option.some.inj hfound
        exact .declaration hkind ‹_›
      · cases hfound
    · intro htells
      cases htells with
      | declaration _ hid => exact if_pos hid
      | parameter hkind' | stateVariable hkind' => cases hkind.symm.trans hkind'
  · rw [Locations.ofEntries_eq_self (Locations.nodup_ofEntries _), valueOf?_slotsFrom_iff]
    constructor
    · rintro ⟨rank, hrank, rfl⟩
      exact .parameter hkind hids hrank
    · intro htells
      cases htells with
      | parameter _ hids' hrank =>
        obtain rfl := Except.ok.inj (hids.symm.trans hids')
        exact ⟨_, hrank, rfl⟩
      | declaration hkind' | stateVariable hkind' => cases hkind.symm.trans hkind'
  · have hnodup := Storage.nodup_places_allocate hallocation
    rw [Locations.ofEntries_eq_self (by rwa [List.map_map]), Locations.valueOf?_map_storage,
      Option.map_eq_some_iff]
    constructor
    · rintro ⟨place, hplace, rfl⟩
      exact .stateVariable hkind hmembers hallocation hplace
    · intro htells
      cases htells with
      | stateVariable _ hmembers' hallocation' hplace =>
        obtain rfl := Except.ok.inj (hmembers.symm.trans hmembers')
        obtain rfl := Except.ok.inj (hallocation.symm.trans hallocation')
        exact ⟨_, hplace, rfl⟩
      | declaration hkind' | parameter hkind' => cases hkind.symm.trans hkind'

end SyntaxTree

/-! ### What a step tells -/

namespace Session

variable {origin here session : Session} {position : Nat} {treeId : TreeId} {id : NodeId}
  {location : Location}

/-- The step at a position stands at a node that tells where a variable of its tree lives. -/
def Puts (session : Session) (position : Nat) (treeId : TreeId) (id : NodeId)
    (location : Location) : Prop :=
  ∃ words tree node, session.StandsAt position words tree node ∧ treeId = some tree.index ∧
    tree.Tells node ((words.length : Int) - 1) id location

section Run

variable (hl : Loaded session) (hp : session.Processes)

include hl hp

theorem locates_iff_puts :
    session.Locates position treeId id location ↔ session.Puts position treeId id location := by
  constructor
  · rintro ⟨locations, ⟨words, tree, node, hstands, htree, hlocations⟩, hfound⟩
    exact ⟨words, tree, node, hstands, htree, (SyntaxTree.tells_iff hlocations).mp hfound⟩
  · rintro ⟨words, tree, node, hstands, rfl, htells⟩
    obtain ⟨locations, hassigns, hlocations⟩ := hstands.exists_assigns hl hp htells.kind_ne
    exact ⟨locations, hassigns, (SyntaxTree.tells_iff hlocations).mpr htells⟩

/-- A step leaves the variables of a tree alone unless it stands in the tree. -/
theorem ofTree_bindingsAt_succ (hlt : position < session.traceLength)
    (h : ∀ words tree node, session.StandsAt position words tree node → treeId ≠ some tree.index) :
    (session.bindingsAt (position + 1)).ofTree treeId
      = (session.bindingsAt position).ofTree treeId := by
  obtain ⟨assigned, locations, ⟨words, tree, node, hstands, rfl, -⟩, hnext⟩ | ⟨-, hnext⟩ :=
    bindingsAt_succ hl hp hlt
  · rw [hnext, Bindings.ofTree_assign_of_ne (h words tree node hstands)]
  · rw [hnext]

end Run

/-- **A variable lives where the latest step has put it.**  Whatever has been asked of a session
since it loaded a trace whose steps are processed, and whatever variable of whatever tree is looked
up: it lives at a location exactly if a step before the cursor puts it there and no later one puts
it anywhere, and it is unbound exactly if no step has put it anywhere.  A step puts a variable
somewhere if it has a stack and stands in the tree at a node that tells where the variable lives;
the tree is that of its source in the program of its own address, or else in that of the frame
before the step.  It leaves the variables of all other trees alone. -/
theorem latest_binding (hl : Loaded origin) (hp : origin.Processes) (ho : Onward origin here)
    (hi : here.caller = .idle) (hw : here.store.tripwires = []) :
    here.bench.slices.bindings = origin.bindingsAt here.cursor ∧
    (∀ treeId id location, here.bench.slices.bindings.location? treeId id = some location ↔
      ∃ latest, latest < here.cursor ∧ origin.Puts latest treeId id location ∧
        ∀ later, latest < later → later < here.cursor →
          ∀ other, ¬ origin.Puts later treeId id other) ∧
    (∀ treeId id, here.bench.slices.bindings.location? treeId id = none ↔
      ∀ earlier, earlier < here.cursor → ∀ location, ¬ origin.Puts earlier treeId id location) ∧
    ∀ position treeId, position < origin.traceLength →
      (∀ words tree node, origin.StandsAt position words tree node → treeId ≠ some tree.index) →
      (origin.bindingsAt (position + 1)).ofTree treeId
        = (origin.bindingsAt position).ofTree treeId := by
  obtain ⟨start, base₀, ticket₀, base, ticket, hs, hat₀, hcursor, hat⟩ :=
    ho.exists_both_at hl hp hi hw
  have hle : here.cursor ≤ origin.traceLength := At.cursor_le hs hat₀ hat
  -- the bindings are those of the position, whatever commands have led to it
  have hbindings : here.bench.slices.bindings = origin.bindingsAt here.cursor :=
    congrArg Slices.bindings (hat₀.slices_eq hs hcursor hat)
  rw [hbindings]
  refine ⟨rfl, fun treeId id location => ?_, fun treeId id => ?_,
    fun position treeId => ofTree_bindingsAt_succ hl hp⟩
  · simp only [location?_eq_some_iff hl hp hle, locates_iff_puts hl hp]
  · simp only [location?_eq_none_iff hl hp hle, locates_iff_puts hl hp]

/-! ### A run with a step of another program -/

/-- A program that knows no source. -/
def plainProgram : Program :=
  ⟨{ name := "Plain", sources := [], entries := [], instructionAt := [] }, []⟩

/-- The address of the program of a state variable. -/
def guestAddress : String := "0x00000000000000000000000000000000000000b2"

/-- The program that knows no source stands in for all others but that of the state variable. -/
def guestPrograms : Registry Program :=
  Registry.add getterProgram (some guestAddress) none (Registry.add plainProgram none none {})

/-- Two steps of an unknown frame, the first one with the address of the program of the variable. -/
def guestSteps : List Step :=
  [{ pc := 1, op := "SLOAD", stack := some ["a7"], address := .str guestAddress },
    { pc := 2, op := "STOP", stack := some ["a7"] }]

/-- A session that has loaded them. -/
def guest : Session := ((new guestPrograms none 1).perform (.load guestSteps none none)).1

theorem loaded_guest : Loaded guest := loaded_of_callTargets rfl _ _ _ _

/-- The first step binds the variable. -/
theorem run_guest :
    guest.Processes ∧ (guest.obey [.advance]).cursor = 1 ∧
      (guest.obey [.advance]).bench.slices.bindings.location? (some 0) (.number 3)
        = some (.stack 0) := by
  decide +kernel

/-- A variable is bound by a step of its own address that stands nowhere in the program of its
frame. -/
theorem guest_bound_by_own_address :
    Loaded guest ∧ guest.Processes ∧ (guest.obey [.advance]).cursor = 1 ∧
      (guest.obey [.advance]).bench.slices.bindings.location? (some 0) (.number 3)
        = some (.stack 0) ∧
      ∀ earlier, earlier < 1 → ∀ step, guest.bench.recording.steps[earlier]? = some step →
        ∀ words tree node, ¬ step.StandsIn (guest.viewAt earlier).frameProgram words tree node := by
  obtain ⟨hprocesses, hcursor, hbound⟩ := run_guest
  refine ⟨loaded_guest, hprocesses, hcursor, hbound, ?_⟩
  rintro earlier hlt step - words tree node ⟨-, -, -, htree, -⟩
  obtain rfl : earlier = 0 := by omega
  -- the program of the frame has no tree to stand in
  have hplain : ((guest.viewAt 0).frameProgram.all fun program => program.trees.isEmpty) := by
    decide +kernel
  cases hframe : (guest.viewAt 0).frameProgram with
  | none =>
    rw [hframe] at htree
    cases htree
  | some program =>
    rw [hframe] at hplain htree
    have htrees : program.trees = [] := List.isEmpty_iff.mp hplain
    obtain ⟨range, -, hfound⟩ := exists_of_map_eq_ok htree
    cases range with
    | none => cases hfound
    | some range =>
      rw [Program.treeFor, htrees] at hfound
      cases hfound

theorem guest_latest_binding :
    Loaded guest ∧ guest.Processes ∧ Onward guest (guest.obey [.advance]) ∧
      (guest.obey [.advance]).caller = .idle ∧ (guest.obey [.advance]).store.tripwires = [] ∧
      guest.Puts 0 (some 0) (.number 3) (.stack 0) := by
  obtain ⟨hprocesses, hcursor, hbound⟩ := run_guest
  obtain ⟨honward, hidle, hwired⟩ := loaded_guest.onward_obey hprocesses [.advance]
  obtain ⟨latest, hlt, hputs, -⟩ :=
    ((latest_binding loaded_guest hprocesses honward hidle hwired).2.1 _ _ _).mp hbound
  obtain rfl : latest = 0 := by omega
  exact ⟨loaded_guest, hprocesses, honward, hidle, hwired, hputs⟩

end Session

end TraceDebugger
