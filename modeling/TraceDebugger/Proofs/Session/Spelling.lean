/-
Checksums are only cosmetic.

Of two sessions that load the same trace one spells addresses with checksums and the other one does
not.  If a checksum changes nothing but the case of letters, they go the same way and show the same
whatever orders they are given, but for the case of the letters in an address.

* `Session.Alike` — what two such sessions show;
* `Paired` — they rest equally far in the trace; `exists_paired` establishes it by loading the
  trace, and `Paired.carryOut` keeps it by an order;
* `checksums_cosmetic` — the main result, over all orders.
-/
import TraceDebugger.Proofs.Advance.Spelling
import TraceDebugger.Proofs.Session.Orders

namespace TraceDebugger

/-- A request loads some steps. -/
inductive Request.Loads (steps : List Step) (address binary : Option String) : Request → Prop
  | steps : Loads steps address binary (.load steps address binary)
  | entries {entries : List Json} (h : StructLog.toSteps entries = .ok steps) :
    Loads steps address binary (.loadLogs entries address binary)

namespace Session

variable {programs : Registry Program} {checksum : Address.Checksum} {depth : Int}
  {steps : List Step} {address binary : Option String} {plain marked : Session}

/-- Two sessions show the same, but for the case of the letters in an address. -/
structure Alike (plain marked : Session) : Prop where
  cursor : marked.cursor = plain.cursor
  functionDepth : marked.bench.functionDepth = plain.bench.functionDepth
  range : marked.bench.range = plain.bench.range
  node : marked.bench.node = plain.bench.node
  bindings : marked.bench.slices.bindings = plain.bench.slices.bindings
  frames : List.Forall₂ Frame.Alike plain.bench.slices.callStack.frames
    marked.bench.slices.callStack.frames
  addresses : List.Forall₂ Text.Alike plain.bench.recording.addresses
    marked.bench.recording.addresses
  published : List.Forall₂ Event.Alike plain.store.published marked.store.published

/-- Two sessions rest equally far in a trace whose steps can all be processed, and differ in the
spelling of addresses only. -/
structure Paired (plain marked : Session) : Prop where
  exists_at : ∃ start base ticket start' base' ticket', Outset start ∧ At start base ticket plain ∧
    Outset start' ∧ At start' base' ticket' marked ∧ base.bench.Alike base'.bench ∧
    List.Forall₂ Event.Alike base.published base'.published

theorem Paired.alike (h : Paired plain marked) : plain.Alike marked := by
  obtain ⟨_, base, ticket, _, base', ticket', -, hat, -, hat', halike, hpublished⟩ := h.exists_at
  obtain rfl := hat.eq_rest
  obtain rfl := hat'.eq_rest
  exact ⟨halike.slices.cursor, halike.functionDepth, halike.range, halike.node,
    halike.slices.bindings, halike.slices.frames, halike.slices.addresses, hpublished⟩

theorem askedFor_alike {blocks blocks' : List (List Event)}
    (h : List.Forall₂ (List.Forall₂ Event.Alike) blocks blocks') :
    List.Forall₂ Event.Alike (askedFor blocks) (askedFor blocks') :=
  List.rel_flatMap h fun _ _ hblock => .cons (.refl _) hblock

/-- An order takes both sessions equally far. -/
theorem Paired.carryOut (h : Paired plain marked) (order : Order) :
    (marked.carryOut order).2 = (plain.carryOut order).2 ∧
      Paired (plain.carryOut order).1 (marked.carryOut order).1 := by
  obtain ⟨start, base, ticket, start', base', ticket', hs, hat, hs', hat', halike, hpublished⟩ :=
    h.exists_at
  obtain ⟨pursuit, blocks, reached, last, host, hbegin, hruns, houtcome, hnext, hleft⟩ :=
    hat.carryOut hs order
  obtain ⟨pursuit', blocks', reached', last', host', hbegin', hruns', houtcome', hnext', hleft'⟩ :=
    hat'.carryOut hs' order
  -- both begin the same pursuit, which passes the same steps
  obtain rfl := Except.ok.inj (hbegin.symm.trans ((halike.begin _ _).symm.trans hbegin'))
  obtain ⟨blocks'', reached'', hruns'', hblocks, hreached⟩ := halike.runs hruns
  obtain ⟨rfl, hcore, -⟩ := hruns''.eq_of_core rfl hruns'
  refine ⟨houtcome'.trans houtcome.symm, start, last, host, start', last', host', hs, hnext, hs',
    hnext', hreached.congr hleft.core (hleft'.core.trans hcore), ?_⟩
  rw [hleft.published, hleft'.published]
  have hevents := Event.forall₂_alike_refl
  have hcycle := List.rel_append (List.rel_append (hevents [order.event, .beginStep order.command])
    (askedFor_alike hblocks)) (hevents [.endStep order.command false])
  exact List.rel_append (List.forall₂_reverse_iff.mpr hcycle) hpublished

theorem Paired.obey (orders : List Order) : ∀ {plain marked : Session}, Paired plain marked →
    marked.outcomes orders = plain.outcomes orders ∧
      Paired (plain.obey orders) (marked.obey orders) := by
  induction orders with
  | nil => exact fun h => ⟨rfl, h⟩
  | cons order rest ih =>
    intro plain marked h
    obtain ⟨houtcome, hnext⟩ := h.carryOut order
    obtain ⟨houtcomes, hlast⟩ := ih hnext
    refine ⟨?_, hlast⟩
    rw [outcomes, outcomes, houtcome, houtcomes]

/-! ### Loading -/

theorem perform_loads {request : Request} (h : request.Loads steps address binary)
    (session : Session) :
    session.perform request = session.perform (.load steps address binary) := by
  cases h with
  | steps => rfl
  | entries h => rw [perform, ask, h, perform, ask]

/-- The workbenches that have received a trace differ in the spelling of the call targets only. -/
theorem received_alike (hc : checksum.Cosmetic) (programs : Registry Program) (depth : Int)
    (ht : ∀ step ∈ steps, step.TargetHexadecimal) {addresses addresses' : List String}
    (ha : List.Forall₂ Text.Alike addresses addresses') (lines lines' : List LogLine) :
    (received programs none depth steps addresses lines).bench.Alike
      (received programs (some checksum) depth steps addresses' lines').bench :=
  ⟨⟨rfl, rfl, rfl, ha, .nil, rfl, rfl⟩, rfl, rfl, ⟨checksum, hc, rfl⟩, .none, ht⟩

/-- A trace that is loaded without checksums is loaded with checksums, and the sessions differ in
the spelling of addresses only. -/
theorem exists_paired (hc : checksum.Cosmetic) (programs : Registry Program) (depth : Int)
    (address binary : Option String) (ht : ∀ step ∈ steps, step.TargetHexadecimal) :
    ∃ plain marked addresses addresses',
      (new programs none depth).perform (.load steps address binary)
        = (plain, ⟨some (.ok (.targets addresses)), false⟩) ∧
      (new programs (some checksum) depth).perform (.load steps address binary)
        = (marked, ⟨some (.ok (.targets addresses')), false⟩) ∧
      List.Forall₂ Text.Alike addresses addresses' ∧
      (plain.Processes → Paired plain marked) := by
  obtain ⟨addresses, hplain, hsmall, hspelled⟩ := exists_callTargets hc ht
  have haddresses : List.Forall₂ Text.Alike addresses (addresses.map checksum.spelling) :=
    List.forall₂_map_right_iff.mpr
      (List.forall₂_same.mpr fun address ha => hc.alike (hplain address ha))
  obtain ⟨lines, base, ticket, hload, hstanding, hentered⟩ :=
    exists_landed hsmall programs depth address binary
  obtain ⟨lines', base', ticket', hload', hstanding', hentered'⟩ :=
    exists_landed hspelled programs depth address binary
  refine ⟨_, _, _, _, hload, hload', haddresses, fun hp => ?_⟩
  -- the first frame is spelled as the caller spells it, in both
  have hevents := Event.forall₂_alike_refl (firstFrame address binary).toList
  have halike : base.bench.Alike base'.bench :=
    ((received_alike hc programs depth ht haddresses lines lines').takeAll derived_of_firstFrame
      hevents).congr hentered.core hentered'.core
  have hcursor : base.bench.recording.cursor = 0 := by
    rw [Workbench.recording_congr hentered.core]
    exact congrArg Recording.cursor (Slices.recording_after_derived derived_of_firstFrame _)
  have hprocessable := processable_of_processes hstanding.sound hentered.service hp
  obtain ⟨hs, hat⟩ := outset_rest hstanding hentered.service hcursor hprocessable
  obtain ⟨hs', hat'⟩ := outset_rest hstanding' hentered'.service
    (halike.slices.cursor.trans hcursor) (halike.processable hprocessable)
  refine ⟨_, base, ticket, _, base', ticket', hs, hat, hs', hat', halike, ?_⟩
  rw [hentered.published, hentered'.published]
  exact List.rel_append (List.forall₂_reverse_iff.mpr hevents)
    (.cons (.receiveAddresses haddresses) (.cons (.refl _) .nil))

/-- Checksums are only cosmetic: if a checksum changes the case of letters only, the targets of all
calls are numbers in hexadecimal and no step raises without checksums, a trace is loaded with
checksums as it is without, and whatever orders are given then, the sessions answer the same and
show the same, but for the case of the letters in an address. -/
theorem checksums_cosmetic (hc : checksum.Cosmetic) {request : Request}
    (hr : request.Loads steps address binary)
    (ht : ∀ step ∈ steps, step.TargetHexadecimal) {told told' : Outcome}
    (hplain : (new programs none depth).perform request = (plain, told))
    (hmarked : (new programs (some checksum) depth).perform request = (marked, told'))
    (hp : plain.Processes) (orders : List Order) :
    (∃ addresses addresses', told = ⟨some (.ok (.targets addresses)), false⟩ ∧
        told' = ⟨some (.ok (.targets addresses')), false⟩ ∧
        List.Forall₂ Text.Alike addresses addresses') ∧
      marked.outcomes orders = plain.outcomes orders ∧
      (plain.obey orders).Alike (marked.obey orders) := by
  obtain ⟨plain', marked', addresses, addresses', hload, hload', haddresses, hpaired⟩ :=
    exists_paired hc programs depth address binary ht
  rw [perform_loads hr] at hplain hmarked
  obtain ⟨rfl, rfl⟩ := Prod.mk.inj (hload.symm.trans hplain)
  obtain ⟨rfl, rfl⟩ := Prod.mk.inj (hload'.symm.trans hmarked)
  obtain ⟨houtcomes, hlast⟩ := (hpaired hp).obey orders
  exact ⟨⟨addresses, addresses', rfl, rfl, haddresses⟩, houtcomes, hlast.alike⟩

/-! ### A trace with a call -/

/-- A program that is known by an address in capitals. -/
def beefPrograms : Registry Program :=
  Registry.add ⟨briefMap, [(0, briefTree)]⟩ (some "0x000000000000000000000000000000000000BEEF") none
    {}

/-- The steps of a run that calls that address. -/
def beefSteps : List Step :=
  [{ pc := 0, op := "CALL", stack := some ["00", "0xbeef", "5208"] }, { pc := 2, op := "JUMP" },
    { pc := 3, op := "STOP" }]

/-- A session that has loaded that run, with or without checksums. -/
def beefSession (checksum : Option Address.Checksum) : Session :=
  ((new beefPrograms checksum 1).perform (.load beefSteps none none)).1

/-- Orders that go into the contract at the address, to a breakpoint in it, and out. -/
def beefOrders : List Order :=
  [.stepInto, .continueUntil
    [{ address := some "0x000000000000000000000000000000000000BeEf", line := some 2 }], .stepOut]

theorem processes_beef : (beefSession none).Processes := by decide +kernel

theorem targetHexadecimal_beef : ∀ step ∈ beefSteps, step.TargetHexadecimal := by decide

theorem beef_checksums_cosmetic :
    Address.Checksum.Cosmetic Address.eip55 ∧
      (∀ step ∈ beefSteps, step.TargetHexadecimal) ∧ (beefSession none).Processes ∧
      (beefSession (some Address.eip55)).outcomes beefOrders
        = (beefSession none).outcomes beefOrders ∧
      ((beefSession none).obey beefOrders).Alike
        ((beefSession (some Address.eip55)).obey beefOrders) := by
  have hload (checksum : Option Address.Checksum) :
      (new beefPrograms checksum 1).perform (.load beefSteps none none)
        = (beefSession checksum,
          ((new beefPrograms checksum 1).perform (.load beefSteps none none)).2) := by
    rw [beefSession, Prod.mk.eta]
  obtain ⟨-, houtcomes, halike⟩ := checksums_cosmetic Address.eip55_cosmetic .steps
    targetHexadecimal_beef (hload none) (hload (some Address.eip55)) processes_beef beefOrders
  exact ⟨Address.eip55_cosmetic, targetHexadecimal_beef, processes_beef, houtcomes, halike⟩

end Session

end TraceDebugger
