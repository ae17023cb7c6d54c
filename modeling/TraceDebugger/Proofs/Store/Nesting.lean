/-
Publications nested in one another.

* `Inside.append`, `Inside.wrap` — records of nested publications, put together;
* `told_tellWithin` — publishing an event gives such a record, and what takers and channels receive
  is what the deliveries in the record give them.
-/
import TraceDebugger.Proofs.Store.Timeline

namespace TraceDebugger.Store

open Happening

theorem hearers_congr {store other : Store} (h : store.listeners = other.listeners) :
    (hearers · store) = (hearers · other) := by
  funext kind
  rw [hearers, hearers, h]

/-- Everybody hears what some listeners hear. -/
theorem hearersOf_heard (number : Nat) (l : List Listener) :
    l.flatMap (fun listener => hearersOf number [.heard number listener]) = l := by
  induction l with
  | nil => rfl
  | cons listener rest ih =>
    rw [List.flatMap_cons, ih, hearersOf, List.filterMap_cons, hearerOf?, if_pos rfl]
    rfl

theorem hearersOf_tripped (number : Nat) (wires : List Tripwire) :
    wires.flatMap (fun wire => hearersOf number [.tripped number wire]) = [] :=
  List.flatMap_eq_nil_iff.mpr fun _ _ => rfl

/-! ### Nesting -/

/-- A place in two lists in a row is in the one or in the other. -/
theorem append_eq_append_cons {α : Type} {first second before after : List α} {a : α}
    (h : first ++ second = before ++ a :: after) :
    (∃ between, first = before ++ a :: between ∧ after = between ++ second)
      ∨ ∃ between, before = first ++ between ∧ second = between ++ a :: after := by
  rcases List.append_eq_append_iff.mp h with ⟨between, hb, hs⟩ | ⟨between, hf, hs⟩
  · exact .inr ⟨between, hb, hs⟩
  · cases between with
    | nil =>
      refine .inr ⟨[], ?_, hs.symm⟩
      rw [List.append_nil] at hf ⊢
      exact hf.symm
    | cons b between =>
      obtain ⟨rfl, rfl⟩ := List.cons.inj hs
      exact .inl ⟨between, hf, rfl⟩

/-- A place in a list with a bracket around it, other than the first bracket, is in the list or is
the second bracket. -/
theorem bracket_eq_append_cons {α : Type} {first a last : α} {l before after : List α}
    (h : first :: l ++ [last] = before ++ a :: after) (ha : first ≠ a) :
    ∃ rest, before = first :: rest ∧ ((l = rest ∧ last = a ∧ after = [])
      ∨ ∃ between, l = rest ++ a :: between ∧ after = between ++ [last]) := by
  cases before with
  | nil => exact absurd (List.cons.inj h).1 ha
  | cons b rest =>
    obtain ⟨rfl, hrest⟩ := List.cons.inj h
    have hl : l ++ [last] = rest ++ a :: after := hrest
    refine ⟨rest, rfl, ?_⟩
    rcases append_eq_append_cons hl with hl | ⟨between, rfl, hlast⟩
    · exact .inr hl
    · cases between with
      | nil =>
        obtain ⟨rfl, rfl⟩ := List.cons.inj hlast
        exact .inl ⟨(List.append_nil l).symm, rfl, rfl⟩
      | cons b between =>
        obtain ⟨-, hnil⟩ := List.cons.inj hlast
        cases between <;> cases hnil

/-- An event has been heard by all who hear it, and is delivered. -/
def Settled (hears : EventKind → List Listener) (record : List Happening) (number : Nat)
    (event : Event) : Prop :=
  hearersOf number record = hears event.kind ∧ .delivered number event ∈ record

/-- An event is delivered after everything that it causes: the slices have taken it, all who hear it
have heard it, and so it is with every event that was published since; nothing more happens to any
of them. -/
structure Completes (hears : EventKind → List Listener) (number : Nat) (event : Event)
    (inside after : List Happening) : Prop where
  heard : hearersOf number inside = hears event.kind
  nested : ∀ other event', .reduced other event' ∈ inside →
    number < other ∧ Settled hears inside other event'
  rest : ∀ happening ∈ after, ∀ other, happening.number? = some other →
    other ≠ number ∧ ∀ event', .reduced other event' ∉ inside

/-- A record of publications that are nested as they should be.  Their events have the numbers from
`first` on, before `last`; besides, somebody may hear the event around them. -/
structure Inside (hears : EventKind → List Listener) (outer : Option Nat) (first last : Nat)
    (record : List Happening) : Prop where
  le : first ≤ last
  outer_lt : ∀ number, outer = some number → number < first
  number : ∀ happening ∈ record, ∀ number, happening.number? = some number →
    (first ≤ number ∧ number < last) ∨ outer = some number ∧ IsHearing number happening
  settled : ∀ number event, .reduced number event ∈ record → Settled hears record number event
  completes : ∀ before number event after, record = before ++ .delivered number event :: after →
    ∃ earlier inside, before = earlier ++ .reduced number event :: inside ∧
      Completes hears number event inside after

namespace Inside

variable {hears : EventKind → List Listener} {outer : Option Nat} {first middle last : Nat}
  {record more : List Happening}

theorem nil (h : ∀ number, outer = some number → number < first) :
    Inside hears outer first first [] := by
  refine ⟨Nat.le_refl _, h, fun _ hm => absurd hm List.not_mem_nil,
    fun _ _ hm => absurd hm List.not_mem_nil, ?_⟩
  intro before number event after heq
  cases before <;> cases heq

/-- The events that the slices take in a record, and those that are delivered, are its own. -/
theorem number_of_mem (h : Inside hears outer first last record) {happening : Happening}
    (hm : happening ∈ record) {number : Nat} (hn : happening.number? = some number)
    (hh : ¬ IsHearing number happening) : first ≤ number ∧ number < last :=
  (h.number happening hm number hn).resolve_right fun ho => hh ho.2

theorem number_of_reduced (h : Inside hears outer first last record) {number : Nat} {event : Event}
    (hm : .reduced number event ∈ record) : first ≤ number ∧ number < last :=
  h.number_of_mem hm rfl nofun

/-- Nothing in a record is about an event of an earlier one, or of a later one. -/
theorem number_ne (h : Inside hears outer first last record) {number : Nat}
    (ho : ∀ other, outer = some other → other ≠ number) (hn : number < first ∨ last ≤ number) :
    ∀ happening ∈ record, happening.number? ≠ some number := by
  intro happening hm heq
  rcases h.number happening hm number heq with ⟨hle, hlt⟩ | ⟨houter, -⟩
  · omega
  · exact ho number houter rfl

/-- Records in a row. -/
theorem append (h : Inside hears outer first middle record)
    (h' : Inside hears outer middle last more) : Inside hears outer first last (record ++ more) := by
  have hle := h.le
  have hle' := h'.le
  have houter {number : Nat} (hn : first ≤ number) : ∀ other, outer = some other → other ≠ number :=
    fun other ho => by have := h.outer_lt other ho; omega
  have hfirst {number : Nat} (hn : first ≤ number) (hn' : number < middle) :
      ∀ happening ∈ more, happening.number? ≠ some number := h'.number_ne (houter hn) (.inl hn')
  have hsecond {number : Nat} (hn : middle ≤ number) :
      ∀ happening ∈ record, happening.number? ≠ some number :=
    h.number_ne (houter (by omega)) (.inr hn)
  refine ⟨by omega, h.outer_lt, ?_, ?_, ?_⟩
  · intro happening hm number hn
    rcases List.mem_append.mp hm with hm | hm
    · exact (h.number happening hm number hn).imp_left fun hb => by omega
    · exact (h'.number happening hm number hn).imp_left fun hb => by omega
  · intro number event hm
    rw [Settled, hearersOf_append]
    rcases List.mem_append.mp hm with hm | hm
    · obtain ⟨hn, hn'⟩ := h.number_of_reduced hm
      obtain ⟨hheard, hdelivered⟩ := h.settled number event hm
      rw [hearersOf_eq_nil (hfirst hn hn'), List.append_nil]
      exact ⟨hheard, List.mem_append_left _ hdelivered⟩
    · obtain ⟨hn, -⟩ := h'.number_of_reduced hm
      obtain ⟨hheard, hdelivered⟩ := h'.settled number event hm
      rw [hearersOf_eq_nil (hsecond hn), List.nil_append]
      exact ⟨hheard, List.mem_append_right _ hdelivered⟩
  · intro before number event after heq
    rcases append_eq_append_cons heq with ⟨between, hrecord, rfl⟩ | ⟨between, rfl, hmore⟩
    · obtain ⟨earlier, inside, hbefore, hc⟩ := h.completes before number event between hrecord
      have hdelivered : .delivered number event ∈ record := by
        rw [hrecord]
        exact List.mem_append_right _ List.mem_cons_self
      obtain ⟨hn, hn'⟩ := h.number_of_mem hdelivered rfl nofun
      refine ⟨earlier, inside, hbefore, hc.heard, hc.nested, ?_⟩
      intro happening hm other ho
      rcases List.mem_append.mp hm with hm | hm
      · exact hc.rest happening hm other ho
      -- what happens in the later record is about its own events
      · refine ⟨fun heq => hfirst hn hn' happening hm (heq ▸ ho), fun event' hr => ?_⟩
        have hmem : .reduced other event' ∈ record := by
          rw [hrecord, hbefore]
          exact List.mem_append_left _ (List.mem_append_right _ (List.mem_cons_of_mem _ hr))
        obtain ⟨hr, hr'⟩ := h.number_of_reduced hmem
        exact hfirst hr hr' happening hm ho
    · obtain ⟨earlier, inside, rfl, hc⟩ := h'.completes between number event after hmore
      exact ⟨record ++ earlier, inside, (List.append_assoc _ _ _).symm, hc⟩

/-- Somebody hears the event around. -/
theorem hearing {number : Nat} (hn : number < first) {happening : Happening}
    (hh : IsHearing number happening) : Inside hears (some number) first first [happening] := by
  have hnumber : happening.number? = some number := by cases hh <;> rfl
  refine ⟨Nat.le_refl _, ?_, ?_, ?_, ?_⟩
  · rintro other heq
    obtain rfl := Option.some.inj heq
    exact hn
  · intro other hm k hk
    obtain rfl := List.mem_singleton.mp hm
    obtain rfl := Option.some.inj (hnumber.symm.trans hk)
    exact .inr ⟨rfl, hh⟩
  · intro k event hm
    cases List.mem_singleton.mp hm
    cases hh
  · intro before k event after heq
    have hm : .delivered k event ∈ [happening] := by
      rw [heq]
      exact List.mem_append_right _ List.mem_cons_self
    cases List.mem_singleton.mp hm
    cases hh

/-- Publications without an event around them may happen inside one. -/
theorem within (h : Inside hears none first last record) {number : Nat} (hn : number < first) :
    Inside hears (some number) first last record := by
  refine ⟨h.le, ?_, ?_, h.settled, h.completes⟩
  · intro other heq
    obtain rfl := Option.some.inj heq
    exact hn
  · exact fun happening hm k hk => (h.number happening hm k hk).imp_right fun ho => by cases ho.1

/-- An event with all that it causes. -/
theorem wrap {number : Nat} {event : Event}
    (h : Inside hears (some number) (number + 1) last record)
    (hh : hearersOf number record = hears event.kind) :
    Inside hears none number last
      (.reduced number event :: record ++ [.delivered number event]) := by
  have hle := h.le
  have hnumber : ∀ happening ∈ record, ∀ k, happening.number? = some k → number ≤ k ∧ k < last := by
    intro happening hm k hk
    rcases h.number happening hm k hk with hb | ⟨ho, -⟩
    · omega
    · obtain rfl := Option.some.inj ho
      omega
  -- the two marks at the ends are no hearings
  have hearers_eq (k : Nat) :
      hearersOf k (.reduced number event :: record ++ [.delivered number event])
        = hearersOf k record := by
    rw [hearersOf_append]
    exact List.append_nil _
  have hreduced : ∀ k e, .reduced k e ∈ record → number < k := fun k e hm =>
    (h.number_of_reduced hm).1
  refine ⟨by omega, nofun, ?_, ?_, ?_⟩
  · intro happening hm k hk
    refine .inl ?_
    rcases List.mem_append.mp hm with hm | hm
    · rcases List.mem_cons.mp hm with rfl | hm
      · obtain rfl := Option.some.inj hk
        omega
      · exact hnumber happening hm k hk
    · obtain rfl := List.mem_singleton.mp hm
      obtain rfl := Option.some.inj hk
      omega
  · intro k e hm
    rw [Settled, hearers_eq]
    rcases List.mem_append.mp hm with hm | hm
    · rcases List.mem_cons.mp hm with heq | hm
      · obtain ⟨rfl, rfl⟩ := Happening.reduced.inj heq
        exact ⟨hh, List.mem_append_right _ List.mem_cons_self⟩
      · obtain ⟨hheard, hdelivered⟩ := h.settled k e hm
        exact ⟨hheard, List.mem_append_left _ (List.mem_cons_of_mem _ hdelivered)⟩
    · cases List.mem_singleton.mp hm
  · intro before k e after heq
    obtain ⟨rest, rfl, hplace⟩ := bracket_eq_append_cons heq nofun
    -- the delivery is the one at the end, or it is inside, where its brackets are there already
    rcases hplace with ⟨rfl, hd, rfl⟩ | ⟨between, hrecord, rfl⟩
    · obtain ⟨rfl, rfl⟩ := Happening.delivered.inj hd
      refine ⟨[], record, rfl, hh, fun other e' hm => ?_, fun _ hm => absurd hm List.not_mem_nil⟩
      exact ⟨hreduced other e' hm, h.settled other e' hm⟩
    · obtain ⟨earlier, inside, rfl, hc⟩ := h.completes rest k e between hrecord
      have hdelivered : .delivered k e ∈ record := by
        rw [hrecord]
        exact List.mem_append_right _ List.mem_cons_self
      obtain ⟨hk, -⟩ := h.number_of_mem hdelivered rfl nofun
      refine ⟨.reduced number event :: earlier, inside, rfl, hc.heard, hc.nested, ?_⟩
      intro happening hm other ho
      rcases List.mem_append.mp hm with hm | hm
      · exact hc.rest happening hm other ho
      · obtain rfl := List.mem_singleton.mp hm
        obtain rfl := Option.some.inj ho
        refine ⟨by omega, fun e' hr => ?_⟩
        have hmem : .reduced number e' ∈ record := by
          rw [hrecord]
          exact List.mem_append_left _ (List.mem_append_right _ (List.mem_cons_of_mem _ hr))
        exact Nat.lt_irrefl _ (hreduced number e' hmem)

end Inside

/-! ### Publications -/

/-- A record tells of publications, which happen inside an event if there is one; some listeners
hear that event meanwhile.  Every ticket is given out once. -/
structure Told (outer : Option Nat) (heard : List Listener) (store last : Store)
    (record : List Happening) : Prop where
  listeners : last.listeners = store.listeners
  inside : Inside (hearers · store) outer store.published.length last.published.length record
  mail : SameMail last (store.replay record)
  heard : ∀ number, outer = some number → hearersOf number record = heard
  nextTicket_le : store.nextTicket ≤ last.nextTicket
  tickets : ∀ ticket ∈ ticketsOf record, store.nextTicket ≤ ticket ∧ ticket < last.nextTicket
  once : (ticketsOf record).Nodup

namespace Told

variable {outer : Option Nat} {heard more : List Listener} {store middle last : Store}
  {record record' : List Happening}

theorem nil (h : ∀ number, outer = some number → number < store.published.length) :
    Told outer [] store store [] :=
  ⟨rfl, Inside.nil h, .refl store, fun _ _ => rfl, Nat.le_refl _,
    fun _ hm => absurd hm List.not_mem_nil, List.nodup_nil⟩

/-- Publications in a row. -/
theorem append (h : Told outer heard store middle record)
    (h' : Told outer more middle last record') :
    Told outer (heard ++ more) store last (record ++ record') := by
  have hhears := hearers_congr h.listeners
  have hle := h.nextTicket_le
  have hle' := h'.nextTicket_le
  refine ⟨h'.listeners.trans h.listeners, h.inside.append (hhears ▸ h'.inside), ?_, ?_,
    Nat.le_trans hle hle', ?_, ?_⟩
  · rw [replay_append]
    exact h'.mail.trans (h.mail.replay record')
  · intro number ho
    rw [hearersOf_append, h.heard number ho, h'.heard number ho]
  · intro ticket hm
    rw [ticketsOf_append] at hm
    rcases List.mem_append.mp hm with hm | hm
    · obtain ⟨hge, hlt⟩ := h.tickets ticket hm
      exact ⟨hge, Nat.lt_of_lt_of_le hlt hle'⟩
    · obtain ⟨hge, hlt⟩ := h'.tickets ticket hm
      exact ⟨Nat.le_trans hle hge, hlt⟩
  · rw [ticketsOf_append]
    refine List.nodup_append.mpr ⟨h.once, h'.once, fun ticket hm other hm' => ?_⟩
    exact Nat.ne_of_lt (Nat.lt_of_lt_of_le (h.tickets ticket hm).2 (h'.tickets other hm').1)

/-- Neither the workbench nor the tripwires have to do with a record. -/
theorem of_sameTraffic (h : Told outer heard middle last record) (hs : SameTraffic middle store) :
    Told outer heard store last record := by
  have hhears := hearers_congr hs.listeners
  exact ⟨h.listeners.trans hs.listeners, hs.published ▸ hhears ▸ h.inside,
    h.mail.trans (hs.mail.replay record), h.heard, hs.nextTicket ▸ h.nextTicket_le,
    hs.nextTicket ▸ h.tickets, h.once⟩

/-- Somebody hears the event around after some publications. -/
theorem hearing {number : Nat} (h : Told none heard store last record)
    (hn : number < store.published.length) {happening : Happening}
    (hh : IsHearing number happening) :
    Told (some number) (hearersOf number [happening]) store last (record ++ [happening]) := by
  have hnobody : hearersOf number record = [] :=
    hearersOf_eq_nil (h.inside.number_ne nofun (.inl hn))
  have hinside : Told (some number) [] store last record :=
    ⟨h.listeners, h.inside.within hn, h.mail, fun k hk => Option.some.inj hk ▸ hnobody,
      h.nextTicket_le, h.tickets, h.once⟩
  have hle := h.inside.le
  have hlast : Told (some number) (hearersOf number [happening]) last last [happening] := by
    have htickets : ticketsOf [happening] = [] := by cases hh <;> rfl
    refine ⟨rfl, Inside.hearing (by omega) hh, ?_, fun k hk => Option.some.inj hk ▸ rfl,
      Nat.le_refl _, ?_, ?_⟩
    · rw [replay_hearing last hh]
      exact .refl last
    · rw [htickets]
      exact fun _ hm => absurd hm List.not_mem_nil
    · rw [htickets]
      exact List.nodup_nil
  exact hinside.append hlast

/-- If all of some things are told, so is their row. -/
theorem collect {α : Type} {task : α → StoreM (List Happening)} {who : α → List Listener}
    (h : ∀ a {store last record}, task a store = .ok record last →
      (∀ number, outer = some number → number < store.published.length) →
      Told outer (who a) store last record) (l : List α)
    {store last : Store} {record : List Happening}
    (hc : Store.collect task l store = .ok record last)
    (ho : ∀ number, outer = some number → number < store.published.length) :
    Told outer (l.flatMap who) store last record := by
  induction l generalizing store record with
  | nil =>
    cases hc
    exact nil ho
  | cons a rest ih =>
    obtain ⟨first, middle, hfirst, hc⟩ := bind_eq_ok hc
    obtain ⟨others, last', hothers, hc⟩ := bind_eq_ok hc
    cases hc
    have hone := h a hfirst ho
    have hle := hone.inside.le
    exact hone.append (ih hothers fun number hn => Nat.lt_of_lt_of_le (ho number hn) hle)

end Told

theorem told_tellHearing {α : Type} {depth number : Nat} {answer : α → StoreM (List Event)}
    {what : α → Happening} (hwhat : ∀ a, IsHearing number (what a))
    (htell : ∀ event {store last record}, tellWithin depth event store = .ok record last →
      Told none [] store last record)
    (hanswer : ∀ {a store last events}, answer a store = .ok events last →
      SameTraffic last store)
    (a : α) {store last : Store} {record : List Happening}
    (h : tellHearing depth answer what a store = .ok record last)
    (hn : ∀ other, some number = some other → other < store.published.length) :
    Told (some number) (hearersOf number [what a]) store last record := by
  obtain ⟨events, middle, hevents, h⟩ := bind_eq_ok h
  obtain ⟨inner, last', hinner, h⟩ := bind_eq_ok h
  cases h
  have htraffic := hanswer hevents
  have htold : Told none (events.flatMap fun _ => []) middle last inner :=
    Told.collect (fun event _ _ _ h _ => htell event h) events hinner nofun
  exact (htold.of_sameTraffic htraffic).hearing (hn number rfl) (hwhat a)

/-- Publishing an event gives a record of publications that are nested as they should be; takers and
channels receive what is delivered in it. -/
theorem told_tellWithin (depth : Nat) : ∀ event {store last : Store} {record : List Happening},
    tellWithin depth event store = .ok record last → Told none [] store last record := by
  induction depth with
  | zero =>
    intro event store last record h
    cases h
  | succ depth ih =>
    intro event store last record h
    obtain ⟨reduced, heard, middle, tripped, after, htake, hheard, htripped, rfl, rfl⟩ :=
      tellWithin_eq_ok h
    have htraffic := sameTraffic_takeIn htake
    have hpublished : reduced.published.length = store.published.length + 1 :=
      congrArg List.length htraffic.published
    have hreduced : ∀ number, some store.published.length = some number →
        number < reduced.published.length := by
      rintro number ⟨⟩
      omega
    have hheard := Told.collect
      (told_tellHearing (fun _ => .heard _) ih sameTraffic_hear) _ hheard hreduced
    rw [hearersOf_heard] at hheard
    have htripped := Told.collect
      (told_tellHearing (fun _ => .tripped _) ih sameTraffic_trip) _ htripped
      fun number hn => Nat.lt_of_lt_of_le (hreduced number hn) hheard.inside.le
    have htold := hheard.append htripped
    rw [hearersOf_tripped, List.append_nil] at htold
    have hhears := hearers_congr htraffic.listeners
    -- noting an event is nothing to those who wait
    have hnoted : SameMail reduced store := htraffic.mail.trans ⟨rfl, rfl, rfl⟩
    have hticket : reduced.nextTicket = store.nextTicket := htraffic.nextTicket
    have htickets : ticketsOf (.reduced store.published.length event :: (heard ++ tripped)
        ++ [.delivered store.published.length event]) = ticketsOf (heard ++ tripped) := by
      rw [ticketsOf_append]
      exact List.append_nil _
    refine ⟨htold.listeners.trans htraffic.listeners, ?_, ?_, nofun,
      hticket ▸ htold.nextTicket_le, htickets ▸ hticket ▸ htold.tickets, htickets ▸ htold.once⟩
    · refine Inside.wrap (hpublished ▸ hhears ▸ htold.inside) ?_
      rw [htold.heard _ rfl]
      exact congrFun hhears event.kind
    · have hmail : SameMail after (store.replay (heard ++ tripped)) :=
        htold.mail.trans (hnoted.replay _)
      have hreplay : store.replay (.reduced store.published.length event :: (heard ++ tripped)
          ++ [.delivered store.published.length event])
            = (store.replay (heard ++ tripped)).deliver event := by
        rw [replay_append]
        rfl
      rw [hreplay]
      exact hmail.deliver event

end TraceDebugger.Store
