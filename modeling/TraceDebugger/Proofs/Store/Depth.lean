/-
How deep a publication goes.

* `putWithin_mono` — a publication that ends may be allowed to go deeper;
* `Chain.nodup` — where publications end, no listener that answers all events alike sets itself off,
  not even through others;
* `put_of_putWithin` — if all listeners answer all events alike, a publication that ends at whatever
  depth ends within the limit of `put`.
-/
import TraceDebugger.Proofs.Advance.Publication
import TraceDebugger.Proofs.Store.Timeline
import Mathlib.Data.List.Perm.Subperm

namespace TraceDebugger

/-- A listener answers all events alike. -/
inductive Listener.AnswersAlike : Listener → Prop
  | relay (tag : String) (kinds : List EventKind) {answer : Event → List Event}
    (h : ∀ event other, answer event = answer other) : AnswersAlike (.relay tag kinds answer)

namespace Store

/-! ### Rows -/

section

variable {α : Type} {act act' : α → StoreM Unit} (invariant : Store → Prop)

theorem forM_cons_eq_ok {a : α} {rest : List α} {store last : Store}
    (h : (a :: rest).forM act store = .ok () last) :
    ∃ middle, act a store = .ok () middle ∧ rest.forM act middle = .ok () last := by
  obtain ⟨_, middle, hone, hrest⟩ := bind_eq_ok h
  exact ⟨middle, hone, hrest⟩

theorem forM_cons_of_ok {a : α} {rest : List α} {store middle last : Store}
    (h : act a store = .ok () middle) (hr : rest.forM act middle = .ok () last) :
    (a :: rest).forM act store = .ok () last := by
  exact (run_bind_ok h).trans hr

/-- What holds before a row and is kept by each of its parts holds when a part begins, and after. -/
theorem forM_keeps {l : List α}
    (hkeeps : ∀ a ∈ l, ∀ {store last}, invariant store → act a store = .ok () last → invariant last)
    {store last : Store} (hi : invariant store) (h : l.forM act store = .ok () last) :
    invariant last ∧ ∀ a ∈ l, ∃ before after, invariant before ∧ act a before = .ok () after := by
  induction l generalizing store with
  | nil =>
    cases h
    exact ⟨hi, fun _ hm => absurd hm List.not_mem_nil⟩
  | cons a rest ih =>
    obtain ⟨middle, hone, hrest⟩ := forM_cons_eq_ok h
    have hmiddle := hkeeps a List.mem_cons_self hi hone
    obtain ⟨hlast, hparts⟩ := ih (fun b hb => hkeeps b (List.mem_cons_of_mem a hb)) hmiddle hrest
    refine ⟨hlast, fun b hb => ?_⟩
    rcases List.mem_cons.mp hb with rfl | hb
    · exact ⟨store, middle, hi, hone⟩
    · exact hparts b hb

/-- A row whose parts may be exchanged for others. -/
theorem forM_exchange {l : List α}
    (h : ∀ a ∈ l, ∀ {store last}, invariant store → act a store = .ok () last →
      act' a store = .ok () last ∧ invariant last)
    {store last : Store} (hi : invariant store) (hrow : l.forM act store = .ok () last) :
    l.forM act' store = .ok () last := by
  induction l generalizing store with
  | nil => exact hrow
  | cons a rest ih =>
    obtain ⟨middle, hone, hrest⟩ := forM_cons_eq_ok hrow
    obtain ⟨hone, hmiddle⟩ := h a List.mem_cons_self hi hone
    exact forM_cons_of_ok hone
      (ih (fun b hb => h b (List.mem_cons_of_mem a hb)) hmiddle hrest)

end

/-! ### Publications -/

/-- The answers of somebody who hears an event are published. -/
def putHearing {α : Type} (depth : Nat) (answer : α → StoreM (List Event)) (a : α) :
    StoreM Unit := do
  (← answer a).forM (putWithin depth)

/-- What a publication that succeeds consists of. -/
theorem putWithin_eq_ok_iff {depth : Nat} {event : Event} {store last : Store} :
    putWithin (depth + 1) event store = .ok () last ↔ ∃ reduced middle after,
      takeIn event (store.note event) = .ok () reduced
        ∧ (hearers event.kind reduced).forM (putHearing depth (hear event)) reduced = .ok () middle
        ∧ middle.tripwires.forM (putHearing depth (trip event)) middle = .ok () after
        ∧ last = after.deliver event := by
  constructor
  · intro h
    rw [putWithin] at h
    -- the parts are run one after the other; those that only read or note the store cannot fail
    obtain ⟨_, _, hnote, h⟩ := bind_eq_ok h
    cases hnote
    obtain ⟨_, reduced, htake, h⟩ := bind_eq_ok h
    obtain ⟨_, _, hget, h⟩ := bind_eq_ok h
    cases hget
    obtain ⟨_, middle, hheard, h⟩ := bind_eq_ok h
    obtain ⟨_, _, hget, h⟩ := bind_eq_ok h
    cases hget
    obtain ⟨_, after, htripped, h⟩ := bind_eq_ok h
    cases h
    exact ⟨reduced, middle, after, htake, hheard, htripped, rfl⟩
  · rintro ⟨reduced, middle, after, htake, hheard, htripped, rfl⟩
    have hreduced : (takeIn event).run (store.note event) = .ok () reduced := htake
    show (putWithin (depth + 1) event).run store = _
    rw [putWithin, run_modify_bind, run_bind_ok hreduced, run_get_bind]
    refine (run_bind_ok hheard).trans ?_
    rw [run_get_bind]
    exact run_bind_ok htripped

/-- Answers that may be published otherwise, where more may be known once they are given. -/
theorem putHearing_exchange {α : Type} {depth depth' : Nat} {answer : α → StoreM (List Event)}
    {a : α} (invariant : Store → Prop)
    (hanswer : ∀ {store last events}, invariant store → answer a store = .ok events last →
      ∃ inner : Store → Prop, inner last ∧ (∀ store, inner store → invariant store)
        ∧ ∀ event ∈ events, ∀ {store last}, inner store →
          putWithin depth event store = .ok () last →
          putWithin depth' event store = .ok () last ∧ inner last)
    {store last : Store} (hi : invariant store) (h : putHearing depth answer a store = .ok () last) :
    putHearing depth' answer a store = .ok () last ∧ invariant last := by
  obtain ⟨events, middle, hevents, h⟩ := bind_eq_ok h
  obtain ⟨inner, hmiddle, hinner, hevery⟩ := hanswer hi hevents
  refine ⟨(run_bind_ok hevents).trans (forM_exchange inner hevery hmiddle h), hinner _ ?_⟩
  exact (forM_keeps inner (fun event hm _ _ hi hp => (hevery event hm hi hp).2) hmiddle h).1

/-- A publication that ends may be allowed to go deeper. -/
theorem putWithin_succ {depth : Nat} : ∀ event {store last : Store},
    putWithin depth event store = .ok () last →
      putWithin (depth + 1) event store = .ok () last := by
  -- on the depth; the answers may be published one level deeper as well
  induction depth with
  | zero =>
    intro event store last h
    cases h
  | succ depth ih =>
    intro event store last h
    obtain ⟨reduced, middle, after, htake, hheard, htripped, rfl⟩ := putWithin_eq_ok_iff.mp h
    have hone {α : Type} {answer : α → StoreM (List Event)} (a : α) {store last : Store}
        (h : putHearing depth answer a store = .ok () last) :
        putHearing (depth + 1) answer a store = .ok () last :=
      (putHearing_exchange (fun _ => True)
        (fun _ _ => ⟨fun _ => True, trivial, fun _ _ => trivial,
          fun event _ _ _ _ hp => ⟨ih event hp, trivial⟩⟩) trivial h).1
    refine putWithin_eq_ok_iff.mpr ⟨reduced, middle, after, htake, ?_, ?_, rfl⟩
    · exact forM_exchange (fun _ => True) (fun a _ _ _ _ hp => ⟨hone a hp, trivial⟩)
        trivial hheard
    · exact forM_exchange (fun _ => True) (fun a _ _ _ _ hp => ⟨hone a hp, trivial⟩)
        trivial htripped

theorem putWithin_mono {depth depth' : Nat} (hle : depth ≤ depth') {event : Event}
    {store last : Store} (h : putWithin depth event store = .ok () last) :
    putWithin depth' event store = .ok () last := by
  induction hle with
  | refl => exact h
  | step _ ih => exact putWithin_succ event ih

/-! ### What is left -/

/-- The listeners of a store, and how many tripwires it has at most. -/
structure Wires (listeners : List Listener) (wires : Nat) (store : Store) : Prop where
  listeners : store.listeners = listeners
  length_le : store.tripwires.length ≤ wires

section

variable {listeners : List Listener} {wires : Nat} {event : Event} {store last : Store}

theorem Wires.takeIn (h : Wires listeners wires store)
    (ht : Store.takeIn event store = .ok () last) : Wires listeners wires last := by
  rw [Store.takeIn] at ht
  split at ht <;> cases ht
  exact ⟨h.listeners, h.length_le⟩

theorem Wires.hear (h : Wires listeners wires store) {listener : Listener} {events : List Event}
    (ht : Store.hear event listener store = .ok events last) : Wires listeners wires last := by
  rw [Store.hear] at ht
  split at ht <;> cases ht
  exact ⟨h.listeners, h.length_le⟩

/-- A tripwire that answers is gone. -/
theorem Wires.trip (h : Wires listeners wires store) {wire : Tripwire} {events : List Event}
    (ht : Store.trip event wire store = .ok events last) :
    Wires listeners wires last ∧ ∀ answer ∈ events, answer = wire.event ∧ 0 < wires
      ∧ Wires listeners (wires - 1) last := by
  rw [Store.trip] at ht
  split at ht
  · rename_i hoff
    cases ht
    have hany : store.tripwires.any (fun armed => armed.ticket == wire.ticket) = true :=
      (Bool.and_eq_true_iff.mp (Bool.and_eq_true_iff.mp hoff).1).1
    obtain ⟨armed, harmed, hticket⟩ := List.any_eq_true.mp hany
    have hlt : (store.removeWire wire.ticket).tripwires.length < store.tripwires.length :=
      List.length_filter_lt_length_iff_exists.mpr ⟨armed, harmed, by simpa using hticket⟩
    have hle := h.length_le
    refine ⟨⟨h.listeners, by omega⟩, fun answer hm => ?_⟩
    exact ⟨List.mem_singleton.mp hm, by omega, h.listeners, by omega⟩
  · cases ht
    exact ⟨h, fun _ hm => absurd hm List.not_mem_nil⟩

theorem Wires.putWithin {depth : Nat} : ∀ {event} {store last : Store},
    Wires listeners wires store → Store.putWithin depth event store = .ok () last →
      Wires listeners wires last := by
  -- on the depth; what an answer publishes is published one level below
  induction depth with
  | zero =>
    intro event store last _ h
    cases h
  | succ depth ih =>
    intro event store last h hput
    obtain ⟨reduced, middle, after, htake, hheard, htripped, rfl⟩ := putWithin_eq_ok_iff.mp hput
    have hnoted : Wires listeners wires (store.note event) := ⟨h.listeners, h.length_le⟩
    have hanswers {answers : List Event} {store last : Store} (h : Wires listeners wires store)
        (hrow : answers.forM (Store.putWithin depth) store = .ok () last) :
        Wires listeners wires last := (forM_keeps _ (fun _ _ _ _ => ih) h hrow).1
    have hmiddle := (forM_keeps (Wires listeners wires) (fun listener _ _ _ h hone => by
      obtain ⟨events, _, hevents, hrow⟩ := bind_eq_ok hone
      exact hanswers (h.hear hevents) hrow) (hnoted.takeIn htake) hheard).1
    have hafter := (forM_keeps (Wires listeners wires) (fun wire _ _ _ h hone => by
      obtain ⟨events, _, hevents, hrow⟩ := bind_eq_ok hone
      exact hanswers (h.trip hevents).1 hrow) hmiddle htripped).1
    exact ⟨hafter.listeners, hafter.length_le⟩

theorem Wires.forM {answers : List Event} {depth : Nat} (h : Wires listeners wires store)
    (hrow : answers.forM (Store.putWithin depth) store = .ok () last) :
    Wires listeners wires last ∧ ∀ answer ∈ answers, ∃ before after,
      Wires listeners wires before ∧ Store.putWithin depth answer before = .ok () after :=
  forM_keeps _ (fun _ _ _ _ => Wires.putWithin) h hrow

theorem Wires.hearings {hearing : List Listener} {depth : Nat} (h : Wires listeners wires store)
    (hrow : hearing.forM (putHearing depth (Store.hear event)) store = .ok () last) :
    Wires listeners wires last ∧ ∀ listener ∈ hearing, ∃ before after,
      Wires listeners wires before ∧ putHearing depth (Store.hear event) listener before
        = .ok () after := by
  refine forM_keeps _ (fun listener _ store last h hone => ?_) h hrow
  obtain ⟨answers, _, hanswers, hrow⟩ := bind_eq_ok hone
  exact ((h.hear hanswers).forM hrow).1

end

/-! ### Chains of relays -/

/-- Relays that set one another off, the first of them set off by an event. -/
inductive Chain (listeners : List Listener) : Event → List Listener → Prop
  | nil (event : Event) : Chain listeners event []
  | cons {event next : Event} {tag : String} {kinds : List EventKind}
      {answer : Event → List Event} {rest : List Listener}
      (hmem : .relay tag kinds answer ∈ listeners) (hkind : event.kind ∈ kinds)
      (hnext : next ∈ answer event) (hrest : Chain listeners next rest) :
      Chain listeners event (.relay tag kinds answer :: rest)

namespace Chain

variable {listeners chain before after after' : List Listener} {event event' : Event}

theorem subset (h : Chain listeners event chain) : chain ⊆ listeners := by
  induction h with
  | nil => exact List.nil_subset _
  | cons hmem _ _ _ ih => exact List.cons_subset.mpr ⟨hmem, ih⟩

/-- A chain may go on in every way in which it goes on elsewhere from the same listener. -/
theorem exchange (halike : ∀ listener ∈ listeners, listener.AnswersAlike) {relay : Listener}
    (h : Chain listeners event (before ++ relay :: after))
    (h' : Chain listeners event' (relay :: after')) :
    Chain listeners event (before ++ relay :: after') := by
  induction before generalizing event with
  | nil =>
    cases h with
    | cons hmem hkind _ _ => cases h' with
      | cons _ _ hnext hrest =>
        cases halike _ hmem with
        | relay _ _ hsame => exact cons hmem hkind (hsame event event' ▸ hnext) hrest
  | cons first before ih =>
    cases h with
    | cons hmem hkind hnext hrest => exact cons hmem hkind hnext (ih hrest)

/-- Where there are no long chains, nobody who answers all events alike sets itself off, not even
through others. -/
theorem nodup (halike : ∀ listener ∈ listeners, listener.AnswersAlike) {bound : Nat}
    (h : Chain listeners event chain)
    (hbound : ∀ other, Chain listeners event other → other.length ≤ bound) : chain.Nodup := by
  induction h with
  | nil => exact List.nodup_nil
  | @cons event next tag kinds answer rest hmem hkind hnext hrest ih =>
    have hnodup : rest.Nodup := ih fun other ho =>
      Nat.le_of_succ_le (hbound _ (cons hmem hkind hnext ho))
    refine List.nodup_cons.mpr ⟨fun hm => ?_, hnodup⟩
    obtain ⟨before, after, rfl⟩ := List.append_of_mem hm
    -- a relay that comes again comes as often as one likes
    have hlong (n : Nat) : ∃ tail, Chain listeners event (.relay tag kinds answer :: tail)
        ∧ n ≤ tail.length := by
      induction n with
      | zero => exact ⟨_, cons hmem hkind hnext hrest, Nat.zero_le _⟩
      | succ n ihn =>
        obtain ⟨tail, htail, hn⟩ := ihn
        refine ⟨_, cons hmem hkind hnext (hrest.exchange halike htail), ?_⟩
        rw [List.length_append, List.length_cons]
        omega
    obtain ⟨tail, htail, hn⟩ := hlong bound
    have := hbound _ htail
    rw [List.length_cons] at this
    omega

/-- Where there are no long chains, a chain is not longer than there are listeners. -/
theorem length_le (halike : ∀ listener ∈ listeners, listener.AnswersAlike) {bound : Nat}
    (h : Chain listeners event chain)
    (hbound : ∀ other, Chain listeners event other → other.length ≤ bound) :
    chain.length ≤ listeners.length :=
  (List.subperm_of_subset (h.nodup halike hbound) h.subset).length_le

end Chain

/-- Who hears an event of a kind is a listener that hears such events. -/
theorem mem_hearers {store : Store} {kind : EventKind} {listener : Listener} :
    listener ∈ hearers kind store
      ↔ listener ∈ store.listeners ∧ listener.hearings kind ≠ 0 := by
  rw [hearers, List.mem_flatMap]
  constructor
  · rintro ⟨other, hother, hm⟩
    obtain ⟨hne, rfl⟩ := List.mem_replicate.mp hm
    exact ⟨hother, hne⟩
  · rintro ⟨hl, hne⟩
    exact ⟨listener, hl, List.mem_replicate.mpr ⟨hne, rfl⟩⟩

theorem hearings_relay_ne_zero {tag : String} {kinds : List EventKind}
    {answer : Event → List Event} {kind : EventKind} :
    (Listener.relay tag kinds answer).hearings kind ≠ 0 ↔ kind ∈ kinds := by
  rw [Listener.hearings, ne_eq, List.count_eq_zero, not_not]

/-- A publication that ends is as deep as each chain of relays that it sets off. -/
theorem Chain.length_lt {listeners chain : List Listener} {depth : Nat} : ∀ {event : Event}
    {store last : Store}, store.listeners = listeners → putWithin depth event store = .ok () last →
      Chain listeners event chain → chain.length < depth := by
  -- on the chain; each relay in it publishes one level deeper than the event that it hears
  induction chain generalizing depth with
  | nil =>
    intro event store last _ h _
    cases depth with
    | zero => cases h
    | succ depth => exact Nat.succ_pos depth
  | cons relay rest ih =>
    intro event store last hl h hchain
    cases hchain with
    | @cons _ next tag kinds answer _ hmem hkind hnext hrest =>
      cases depth with
      | zero => cases h
      | succ depth =>
        obtain ⟨reduced, middle, after, htake, hheard, -, -⟩ := putWithin_eq_ok_iff.mp h
        have hnoted : Wires listeners store.tripwires.length (store.note event) :=
          ⟨hl, Nat.le_refl _⟩
        have hreduced := hnoted.takeIn htake
        have hhears : .relay tag kinds answer ∈ hearers event.kind reduced :=
          mem_hearers.mpr ⟨hreduced.listeners ▸ hmem, hearings_relay_ne_zero.mpr hkind⟩
        obtain ⟨before, _, hbefore, hone⟩ := (hreduced.hearings hheard).2 _ hhears
        obtain ⟨answers, heard, hanswers, hrow⟩ := bind_eq_ok hone
        have hheard := hbefore.hear hanswers
        cases hanswers
        -- what it publishes succeeds as well, as a part of a publication that does
        obtain ⟨before', _, hbefore', hput⟩ := (hheard.forM hrow).2 next hnext
        exact Nat.succ_lt_succ (ih hbefore'.listeners hput hrest)

/-! ### How deep a publication goes -/

/-- No chain of relays that an event sets off is longer than some bound. -/
def Height (listeners : List Listener) (event : Event) (height : Nat) : Prop :=
  ∀ chain, Chain listeners event chain → chain.length ≤ height

theorem height_of_putWithin {depth : Nat} {event : Event} {store last : Store}
    (halike : ∀ listener ∈ store.listeners, listener.AnswersAlike)
    (h : putWithin depth event store = .ok () last) :
    Height store.listeners event store.listeners.length := fun _ hchain =>
  hchain.length_le halike fun _ hother => Nat.le_of_lt (hother.length_lt rfl h)

/-- Every tripwire that is set off lets the relays begin anew. -/
theorem putWithin_of_height {listeners : List Listener}
    (halike : ∀ listener ∈ listeners, listener.AnswersAlike) {depth : Nat} :
    ∀ {event : Event} {store last : Store} {height wires : Nat},
      Wires listeners wires store → Height listeners event height →
      putWithin depth event store = .ok () last →
      putWithin (height + 1 + wires * (listeners.length + 1)) event store = .ok () last := by
  induction depth with
  | zero =>
    intro event store last height wires _ _ h
    cases h
  | succ depth ih =>
    intro event store last height wires hw hheight h
    obtain ⟨reduced, middle, after, htake, hheard, htripped, rfl⟩ := putWithin_eq_ok_iff.mp h
    have hnoted : Wires listeners wires (store.note event) := ⟨hw.listeners, hw.length_le⟩
    have hreduced := hnoted.takeIn htake
    have hhearing : ∀ listener ∈ hearers event.kind reduced, ∀ {store last : Store},
        Wires listeners wires store →
        putHearing depth (hear event) listener store = .ok () last →
        putHearing (height + wires * (listeners.length + 1)) (hear event) listener store
          = .ok () last ∧ Wires listeners wires last := by
      intro listener hm store last hw h
      obtain ⟨hmem, hhears⟩ := mem_hearers.mp hm
      rw [hreduced.listeners] at hmem
      refine putHearing_exchange _ (fun hw hevents => ⟨Wires listeners wires, hw.hear hevents,
        fun _ => id, fun next hnext store last hw hput => ⟨?_, hw.putWithin hput⟩⟩) hw h
      cases halike listener hmem with
      | relay tag kinds hsame =>
        cases hevents
        -- one relay of the chain is behind
        have hlonger (chain : List Listener) (hchain : Chain listeners next chain) :
            chain.length + 1 ≤ height :=
          hheight _ (.cons hmem (hearings_relay_ne_zero.mp hhears) hnext hchain)
        cases height with
        | zero => exact absurd (hlonger [] (.nil next)) (Nat.not_succ_le_zero _)
        | succ height =>
          exact ih hw (fun chain hchain => Nat.le_of_succ_le_succ (hlonger chain hchain)) hput
    have htripping : ∀ wire ∈ middle.tripwires, ∀ {store last : Store},
        Wires listeners wires store →
        putHearing depth (trip event) wire store = .ok () last →
        putHearing (height + wires * (listeners.length + 1)) (trip event) wire store
          = .ok () last ∧ Wires listeners wires last := by
      intro wire _ store last hw h
      refine putHearing_exchange _ (fun {_ _ events} hw hevents =>
        ⟨fun store => Wires listeners wires store
          ∧ ∀ answer ∈ events, 0 < wires ∧ Wires listeners (wires - 1) store, ?_, fun _ => And.left,
          fun next hnext store last hw hput => ⟨?_, hw.1.putWithin hput, fun answer hm => ?_⟩⟩) hw h
      · obtain ⟨hw, hanswers⟩ := hw.trip hevents
        exact ⟨hw, fun answer hm => (hanswers answer hm).2⟩
      · -- one tripwire is behind
        obtain ⟨hpos, hw⟩ := hw.2 next hnext
        have hput' := ih hw (hw.listeners ▸ height_of_putWithin (hw.listeners ▸ halike) hput) hput
        refine putWithin_mono ?_ hput'
        obtain ⟨left, rfl⟩ : ∃ left, wires = left + 1 := ⟨wires - 1, by omega⟩
        rw [Nat.add_sub_cancel, Nat.add_one_mul left]
        omega
      · obtain ⟨hpos, hw⟩ := hw.2 answer hm
        exact ⟨hpos, hw.putWithin hput⟩
    rw [Nat.add_right_comm]
    exact putWithin_eq_ok_iff.mpr ⟨reduced, middle, after, htake,
      forM_exchange _ hhearing hreduced hheard,
      forM_exchange _ htripping (hreduced.hearings hheard).1 htripped, rfl⟩

/-- **If all listeners answer all events alike, a publication that ends at whatever depth ends
within the limit of `put`.** -/
theorem put_of_putWithin {depth : Nat} {event : Event} {store last : Store}
    (halike : ∀ listener ∈ store.listeners, listener.AnswersAlike)
    (h : putWithin depth event store = .ok () last) : put event store = .ok () last := by
  have hdeep := putWithin_of_height halike ⟨rfl, Nat.le_refl _⟩
    (height_of_putWithin halike h) h
  refine putWithin_mono ?_ hdeep
  rw [depthLimit, Nat.add_one_mul]
  omega

end Store

end TraceDebugger
