/-
Who receives what.

A taker gets the first event of its kinds that is delivered after it began to wait, and nothing if
it was cancelled before; a channel gets all events of its kinds that are delivered between its
subscription and its end, in order.

* `gotBy_replay`, `waitingIn_replay` — what takers and channels receive of a record;
* `told_tell` — an operation on a store gives a record of nested publications;
* `operations_deliver` — the main result, about every sequence of operations on a store.
-/
import TraceDebugger.Proofs.Store.Depth
import TraceDebugger.Proofs.Store.Nesting

namespace TraceDebugger

namespace Happening

/-- The event that is delivered, if it is of some kinds. -/
def received? (kinds : List EventKind) : Happening → Option Event
  | delivered _ event => if kinds.contains event.kind then some event else none
  | _ => none

/-- The events of some kinds that are delivered in a record, in order. -/
def eventsFor (kinds : List EventKind) (record : List Happening) : List Event :=
  record.filterMap (received? kinds)

/-- The taker of a ticket gives up. -/
def cancels (ticket : Ticket) : Happening → Bool
  | cancelled other => other == ticket
  | _ => false

/-- The channel of a ticket is closed. -/
def closes (ticket : Ticket) : Happening → Bool
  | unsubscribed other => other == ticket
  | _ => false

end Happening

namespace Store

open Happening

/-! ### Takers -/

/-- What the taker of a ticket has got, newest first. -/
def gotBy (ticket : Ticket) (store : Store) : List Event :=
  (store.outcomes.filter fun outcome => outcome.1 == ticket).map Prod.snd

/-- Those who wait with a ticket. -/
def takersOf (ticket : Ticket) (store : Store) : List Taker :=
  store.takers.filter fun taker => taker.ticket == ticket

variable {store : Store} {ticket : Ticket} {kinds : List EventKind}

theorem SameMail.gotBy {other : Store} (h : SameMail store other) :
    store.gotBy ticket = other.gotBy ticket :=
  congrArg (fun outcomes => (outcomes.filter fun outcome => outcome.1 == ticket).map Prod.snd)
    h.outcomes

theorem takersOf_deliver (event : Event) : (store.deliver event).takersOf ticket
    = (store.takersOf ticket).filter fun taker => !taker.kinds.contains event.kind := by
  show (store.takers.filter _).filter _ = (store.takers.filter _).filter _
  rw [List.filter_filter, List.filter_filter]
  exact List.filter_congr fun _ _ => Bool.and_comm ..

/-- Those who wait with a ticket for an event of this kind get it. -/
theorem gotBy_deliver (event : Event) : (store.deliver event).gotBy ticket
    = (((store.takersOf ticket).filter fun taker => taker.kinds.contains event.kind).map
        fun _ => event).reverse ++ store.gotBy ticket := by
  have hserved : (store.deliver event).outcomes
      = ((store.takers.filter fun taker => taker.kinds.contains event.kind).map
          fun taker => (taker.ticket, event)).reverse ++ store.outcomes := rfl
  rw [gotBy, hserved, List.filter_append, List.map_append, List.filter_reverse, List.map_reverse,
    List.filter_map, List.map_map, List.filter_filter, takersOf, List.filter_filter]
  have hfilter := List.filter_congr (l := store.takers) (p := fun taker : Taker =>
    (taker.ticket == ticket) && taker.kinds.contains event.kind) fun taker _ => Bool.and_comm _ _
  exact congrArg (fun l => (List.map _ l).reverse ++ _) hfilter

theorem takersOf_cancel (other : Ticket) : (store.cancel other).takersOf ticket
    = if other = ticket then [] else store.takersOf ticket := by
  show (store.takers.filter _).filter _ = _
  rw [List.filter_filter]
  split
  · rename_i heq
    refine List.filter_eq_nil_iff.mpr fun taker _ => ?_
    simp [heq]
  · rename_i hne
    refine List.filter_congr fun taker _ => ?_
    by_cases ht : taker.ticket = ticket
    · simp [ht, Ne.symm hne]
    · simp [ht]

theorem takersOf_took {other : Ticket} (h : other ≠ ticket) :
    ((Happening.took other kinds).effect store).takersOf ticket = store.takersOf ticket := by
  show (store.takers ++ [(⟨other, kinds⟩ : Taker)]).filter _ = _
  rw [List.filter_append, List.filter_cons_of_neg (by simpa using h), List.filter_nil,
    List.append_nil]
  rfl

/-- Who does not wait gets nothing. -/
theorem gotBy_effect_of_gone {happening : Happening} (hh : happening.ticket? ≠ some ticket)
    (h : store.takersOf ticket = []) :
    (happening.effect store).takersOf ticket = []
      ∧ (happening.effect store).gotBy ticket = store.gotBy ticket := by
  cases happening with
  | took other kinds =>
    rw [takersOf_took fun heq => hh (congrArg some heq)]
    exact ⟨h, rfl⟩
  | cancelled other =>
    refine ⟨(takersOf_cancel other).trans ?_, rfl⟩
    rw [h, ite_self]
  | delivered number event =>
    refine ⟨(takersOf_deliver event).trans ?_, (gotBy_deliver event).trans ?_⟩ <;> rw [h] <;> rfl
  | _ => exact ⟨h, rfl⟩

theorem gotBy_replay_of_gone {record : List Happening} (hrecord : ticket ∉ ticketsOf record)
    (h : store.takersOf ticket = []) :
    (store.replay record).takersOf ticket = []
      ∧ (store.replay record).gotBy ticket = store.gotBy ticket := by
  induction record generalizing store with
  | nil => exact ⟨h, rfl⟩
  | cons happening rest ih =>
    obtain ⟨hh, hrest⟩ := not_mem_ticketsOf_cons.mp hrecord
    obtain ⟨hgone, hgot⟩ := gotBy_effect_of_gone hh h
    rw [← hgot]
    exact ih hrest hgone

/-- Who waits gets the first event of the kinds asked for, if it comes before the wait is
cancelled. -/
theorem gotBy_replay {record : List Happening} (hrecord : ticket ∉ ticketsOf record)
    (h : store.takersOf ticket = [⟨ticket, kinds⟩]) (hgot : store.gotBy ticket = []) :
    (store.replay record).gotBy ticket
      = (eventsFor kinds (record.takeWhile fun happening => !happening.cancels ticket)).take 1 := by
  -- on the record; the first event of these kinds, or the cancellation, ends the wait
  induction record generalizing store with
  | nil => exact hgot
  | cons happening rest ih =>
    obtain ⟨hh, hrest⟩ := not_mem_ticketsOf_cons.mp hrecord
    -- once the wait is over, the rest of the record gives nothing more
    have hgone (hw : (happening.effect store).takersOf ticket = []) :
        (store.replay (happening :: rest)).gotBy ticket = (happening.effect store).gotBy ticket :=
      (gotBy_replay_of_gone hrest hw).2
    cases happening with
    | took other kinds' =>
      exact ih hrest ((takersOf_took fun heq => hh (congrArg some heq)).trans h) hgot
    | cancelled other =>
      have htakers : (store.cancel other).takersOf ticket = _ := takersOf_cancel other
      by_cases heq : other = ticket
      · rw [if_pos heq] at htakers
        rw [hgone htakers, List.takeWhile_cons_of_neg (by simp [cancels, heq])]
        exact hgot
      · rw [if_neg heq, h] at htakers
        rw [List.takeWhile_cons_of_pos (by simp [cancels, heq])]
        exact ih hrest htakers hgot
    | delivered number event =>
      have htakers : (store.deliver event).takersOf ticket = _ := takersOf_deliver event
      have hevent : (store.deliver event).gotBy ticket = _ := gotBy_deliver event
      rw [h] at htakers hevent
      rw [hgot] at hevent
      rw [List.takeWhile_cons_of_pos rfl]
      by_cases hk : kinds.contains event.kind
      · rw [List.filter_cons_of_neg (by simpa using hk)] at htakers
        rw [List.filter_cons_of_pos (by simpa using hk)] at hevent
        have hfirst : received? kinds (.delivered number event) = some event := if_pos hk
        rw [hgone htakers, eventsFor, List.filterMap_cons_some hfirst]
        exact hevent
      · rw [List.filter_cons_of_pos (by simpa using hk)] at htakers
        rw [List.filter_cons_of_neg (by simpa using hk)] at hevent
        have hnone : received? kinds (.delivered number event) = none := if_neg hk
        rw [eventsFor, List.filterMap_cons_none hnone]
        exact ih hrest htakers hevent
    | _ => exact ih hrest h hgot

/-! ### Channels -/

/-- The channel of a ticket. -/
def channelOf? (ticket : Ticket) (store : Store) : Option Channel :=
  store.channels.find? fun channel => channel.ticket == ticket

theorem SameMail.waitingIn {other : Store} (h : SameMail store other) :
    store.waitingIn ticket = other.waitingIn ticket := by
  rw [Store.waitingIn, Store.waitingIn, h.channels]

theorem waitingIn_eq {channel : Channel} (h : store.channelOf? ticket = some channel) :
    store.waitingIn ticket = channel.buffer := by
  show ((store.channelOf? ticket).map (·.buffer)).getD [] = _
  rw [h]
  rfl

/-- A change that keeps the tickets of all channels changes the channel of a ticket. -/
theorem find?_map_channels {change : Channel → Channel}
    (h : ∀ channel, (change channel).ticket = channel.ticket) (channels : List Channel) :
    (channels.map change).find? (fun channel => channel.ticket == ticket)
      = (channels.find? fun channel => channel.ticket == ticket).map change := by
  rw [List.find?_map]
  congr 2
  funext channel
  exact congrArg (· == ticket) (h channel)

theorem channelOf?_deliver (event : Event) : (store.deliver event).channelOf? ticket
    = (store.channelOf? ticket).map fun channel =>
        if channel.isOpen && channel.kinds.contains event.kind then
          { channel with buffer := channel.buffer ++ [event] }
        else channel :=
  find?_map_channels (fun channel => by split <;> rfl) store.channels

theorem channelOf?_unsubscribe (other : Ticket) : (store.unsubscribe other).channelOf? ticket
    = (store.channelOf? ticket).map fun channel =>
        if channel.ticket = other then { channel with isOpen := false } else channel :=
  find?_map_channels (fun channel => by split <;> rfl) store.channels

theorem channelOf?_subscribed {other : Ticket} (h : other ≠ ticket) :
    ((Happening.subscribed other kinds).effect store).channelOf? ticket
      = store.channelOf? ticket := by
  show (store.channels ++ [_]).find? _ = _
  rw [List.find?_append, List.find?_cons_of_neg (by simpa using h), List.find?_nil, Option.or_none]
  rfl

/-- A ticket that is not given out has no channel. -/
theorem channelOf?_replay_of_none {record : List Happening} (hrecord : ticket ∉ ticketsOf record)
    (h : store.channelOf? ticket = none) : (store.replay record).channelOf? ticket = none := by
  induction record generalizing store with
  | nil => exact h
  | cons happening rest ih =>
    obtain ⟨hh, hrest⟩ := not_mem_ticketsOf_cons.mp hrecord
    refine ih hrest ?_
    cases happening with
    | subscribed other kinds =>
      exact (channelOf?_subscribed fun heq => hh (congrArg some heq)).trans h
    | unsubscribed other => exact (channelOf?_unsubscribe other).trans (by rw [h]; rfl)
    | delivered number event => exact (channelOf?_deliver event).trans (by rw [h]; rfl)
    | _ => exact h

/-- A closed channel keeps what it has received, and an open one receives the events of its kinds
until it is closed. -/
theorem waitingIn_replay {record : List Happening} (hrecord : ticket ∉ ticketsOf record)
    {channel : Channel} (h : store.channelOf? ticket = some channel) :
    (store.replay record).waitingIn ticket = channel.buffer ++ if channel.isOpen then
      eventsFor channel.kinds (record.takeWhile fun happening => !happening.closes ticket)
      else [] := by
  have hticket : channel.ticket = ticket := by simpa using List.find?_some h
  -- on the record; the channel only grows, until it is closed
  induction record generalizing store channel with
  | nil =>
    refine (waitingIn_eq h).trans ?_
    simp [eventsFor]
  | cons happening rest ih =>
    obtain ⟨hh, hrest⟩ := not_mem_ticketsOf_cons.mp hrecord
    cases happening with
    | subscribed other kinds =>
      exact ih hrest ((channelOf?_subscribed fun heq => hh (congrArg some heq)).trans h) hticket
    | unsubscribed other =>
      have hchannel : (store.unsubscribe other).channelOf? ticket = _ :=
        channelOf?_unsubscribe other
      rw [h, Option.map_some] at hchannel
      by_cases heq : other = ticket
      · rw [if_pos (hticket.trans heq.symm)] at hchannel
        refine (ih hrest hchannel hticket).trans ?_
        rw [List.takeWhile_cons_of_neg (by simp [closes, heq])]
        simp [eventsFor]
      · rw [if_neg (by rw [hticket]; exact Ne.symm heq)] at hchannel
        rw [List.takeWhile_cons_of_pos (by simp [closes, heq])]
        exact ih hrest hchannel hticket
    | delivered number event =>
      have hchannel : (store.deliver event).channelOf? ticket = _ := channelOf?_deliver event
      rw [h, Option.map_some] at hchannel
      rw [List.takeWhile_cons_of_pos rfl]
      by_cases hk : (channel.isOpen && channel.kinds.contains event.kind) = true
      · rw [if_pos hk] at hchannel
        refine (ih hrest hchannel hticket).trans ?_
        obtain ⟨hopen, hkind⟩ := Bool.and_eq_true_iff.mp hk
        have hfirst : received? channel.kinds (.delivered number event) = some event := if_pos hkind
        rw [if_pos hopen, if_pos hopen, List.append_assoc]
        rw [eventsFor, eventsFor, List.filterMap_cons_some hfirst]
        rfl
      · rw [if_neg hk] at hchannel
        refine (ih hrest hchannel hticket).trans ?_
        congr 1
        split
        · rename_i hopen
          have hnone : received? channel.kinds (.delivered number event) = none :=
            if_neg fun hkind => hk (Bool.and_eq_true_iff.mpr ⟨hopen, hkind⟩)
          rw [eventsFor, eventsFor, List.filterMap_cons_none hnone]
        · rfl
    | _ => exact ih hrest h hticket

/-! ### Operations -/

/-- What is done to a store from outside. -/
inductive Operation where
  | put (event : Event)
  | take (kinds : List EventKind)
  | cancel (ticket : Ticket)
  | subscribe (kinds : List EventKind)
  | unsubscribe (ticket : Ticket)
  /-- Have an event published inside another one, once. -/
  | arm (kind : EventKind) (cursor : Option Int) (event : Event)

namespace Operation

/-- An operation is carried out; publications may go as deep as a limit allows. -/
def run (limit : Store → Nat) : Operation → StoreM Unit
  | put event => fun store => putWithin (limit store) event store
  | take kinds => modify fun store => (store.take kinds).2
  | cancel ticket => modify (Store.cancel ticket)
  | subscribe kinds => modify fun store => (store.subscribe kinds).2
  | unsubscribe ticket => modify (Store.unsubscribe ticket)
  | arm kind cursor event => modify (Store.arm kind cursor event)

/-- What happens when an operation is carried out. -/
def tell (limit : Store → Nat) : Operation → StoreM (List Happening)
  | put event => fun store => tellWithin (limit store) event store
  | take kinds => fun store => .ok [.took (store.take kinds).1 kinds] (store.take kinds).2
  | cancel ticket => fun store => .ok [.cancelled ticket] (store.cancel ticket)
  | subscribe kinds => fun store =>
    .ok [.subscribed (store.subscribe kinds).1 kinds] (store.subscribe kinds).2
  | unsubscribe ticket => fun store => .ok [.unsubscribed ticket] (store.unsubscribe ticket)
  | arm kind cursor event => fun store => .ok [] (store.arm kind cursor event)

theorem run_eq (limit : Store → Nat) (operation : Operation) :
    operation.run limit = silently (operation.tell limit) := by
  cases operation with
  | put event =>
    funext store
    exact congrFun (putWithin_eq (limit store) event) store
  | _ => rfl

end Operation

/-- A record that is about no event. -/
theorem told_of_number?_eq_none {last : Store} {record : List Happening}
    (h : ∀ happening ∈ record, happening.number? = none)
    (hl : last.listeners = store.listeners) (hp : last.published = store.published)
    (hm : SameMail last (store.replay record)) (hn : store.nextTicket ≤ last.nextTicket)
    (ht : ∀ ticket ∈ ticketsOf record, store.nextTicket ≤ ticket ∧ ticket < last.nextTicket)
    (ho : (ticketsOf record).Nodup) : Told none [] store last record := by
  refine ⟨hl, ?_, hm, nofun, hn, ht, ho⟩
  rw [hp]
  refine ⟨Nat.le_refl _, nofun, ?_, ?_, ?_⟩
  · intro happening hh number hnumber
    rw [h happening hh] at hnumber
    cases hnumber
  · intro number event hh
    cases h _ hh
  · intro before number event after heq
    have hh : .delivered number event ∈ record := by
      rw [heq]
      exact List.mem_append_right _ List.mem_cons_self
    cases h _ hh

/-- An operation gives a record of nested publications, and gives out no ticket twice. -/
theorem told_tell {limit : Store → Nat} (operation : Operation) {last : Store}
    {record : List Happening} (h : operation.tell limit store = .ok record last) :
    Told none [] store last record := by
  have hgiven : ∀ ticket ∈ [store.nextTicket],
      store.nextTicket ≤ ticket ∧ ticket < store.nextTicket + 1 := by
    intro ticket hm
    obtain rfl := List.mem_singleton.mp hm
    exact ⟨Nat.le_refl _, Nat.lt_succ_self _⟩
  have hnone : ∀ ticket ∈ ([] : List Ticket),
      store.nextTicket ≤ ticket ∧ ticket < store.nextTicket :=
        fun _ hm => absurd hm List.not_mem_nil
  have hle : store.nextTicket ≤ store.nextTicket + 1 := Nat.le_succ _
  -- only a publication tells more than the operation itself, which gives out one ticket at most
  cases operation with
  | put event => exact told_tellWithin _ event h
  | take kinds =>
    cases h
    exact told_of_number?_eq_none (List.forall_mem_singleton.mpr rfl) rfl rfl ⟨rfl, rfl, rfl⟩ hle
      hgiven (List.nodup_cons.mpr ⟨List.not_mem_nil, List.nodup_nil⟩)
  | subscribe kinds =>
    cases h
    exact told_of_number?_eq_none (List.forall_mem_singleton.mpr rfl) rfl rfl ⟨rfl, rfl, rfl⟩ hle
      hgiven (List.nodup_cons.mpr ⟨List.not_mem_nil, List.nodup_nil⟩)
  | cancel ticket =>
    cases h
    exact told_of_number?_eq_none (List.forall_mem_singleton.mpr rfl) rfl rfl ⟨rfl, rfl, rfl⟩
      (Nat.le_refl _) hnone List.nodup_nil
  | unsubscribe ticket =>
    cases h
    exact told_of_number?_eq_none (List.forall_mem_singleton.mpr rfl) rfl rfl ⟨rfl, rfl, rfl⟩
      (Nat.le_refl _) hnone List.nodup_nil
  | arm kind cursor event =>
    cases h
    exact told_of_number?_eq_none (fun _ hm => absurd hm List.not_mem_nil) rfl rfl ⟨rfl, rfl, rfl⟩
      hle (fun _ hm => absurd hm List.not_mem_nil) List.nodup_nil

/-- Nobody waits in a store, and nobody has received anything. -/
structure IsVacant (store : Store) : Prop where
  takers : store.takers = []
  channels : store.channels = []
  outcomes : store.outcomes = []

/-- A ticket that is given out in a record is not given out before, nor after. -/
theorem not_mem_ticketsOf {before after : List Happening} {happening : Happening}
    (hh : happening.ticket? = some ticket)
    (h : (ticketsOf (before ++ happening :: after)).Nodup) :
    ticket ∉ ticketsOf before ∧ ticket ∉ ticketsOf after := by
  have hsplit : ticketsOf (before ++ happening :: after)
      = ticketsOf before ++ ticket :: ticketsOf after := by
    rw [ticketsOf_append, ticketsOf, ticketsOf, List.filterMap_cons_some hh]
    rfl
  rw [hsplit] at h
  obtain ⟨-, hcons, hdisjoint⟩ := List.nodup_append.mp h
  exact ⟨fun hm => hdisjoint ticket hm ticket List.mem_cons_self rfl, (List.nodup_cons.mp hcons).1⟩

theorem IsVacant.takersOf (h : store.IsVacant) : store.takersOf ticket = [] := by
  rw [Store.takersOf, h.takers]
  rfl

theorem IsVacant.gotBy (h : store.IsVacant) : store.gotBy ticket = [] := by
  rw [Store.gotBy, h.outcomes]
  rfl

theorem IsVacant.channelOf? (h : store.IsVacant) : store.channelOf? ticket = none := by
  rw [Store.channelOf?, h.channels]
  rfl

/-- What a taker gets in a record that begins with nobody waiting. -/
theorem IsVacant.gotBy_took (h : store.IsVacant) {before after : List Happening}
    (hb : ticket ∉ ticketsOf before) (ha : ticket ∉ ticketsOf after) :
    (store.replay (before ++ .took ticket kinds :: after)).gotBy ticket
      = (eventsFor kinds (after.takeWhile fun happening => !happening.cancels ticket)).take 1 := by
  obtain ⟨htakers, hgot⟩ := gotBy_replay_of_gone hb h.takersOf
  have hwaits : ((Happening.took ticket kinds).effect (store.replay before)).takersOf ticket
      = [⟨ticket, kinds⟩] := by
    show ((store.replay before).takers ++ [(⟨ticket, kinds⟩ : Taker)]).filter _ = _
    rw [List.filter_append, List.filter_cons_of_pos (by simp)]
    exact congrArg (· ++ _) htakers
  have hafter := gotBy_replay ha hwaits (hgot.trans h.gotBy)
  rw [replay_append]
  exact hafter

/-- What a channel receives in a record that begins without it. -/
theorem IsVacant.waitingIn_subscribed (h : store.IsVacant) {before after : List Happening}
    (hb : ticket ∉ ticketsOf before) (ha : ticket ∉ ticketsOf after) :
    (store.replay (before ++ .subscribed ticket kinds :: after)).waitingIn ticket
      = eventsFor kinds (after.takeWhile fun happening => !happening.closes ticket) := by
  have hnone := channelOf?_replay_of_none hb h.channelOf?
  have hchannel : ((Happening.subscribed ticket kinds).effect (store.replay before)).channelOf?
      ticket = some { ticket, kinds } := by
    show ((store.replay before).channels ++ [({ ticket, kinds } : Channel)]).find? _ = _
    rw [List.find?_append, List.find?_cons_of_pos (by simp)]
    show ((store.replay before).channelOf? ticket).or (some _) = _
    rw [hnone, Option.none_or]
  have hafter := waitingIn_replay ha hchannel
  rw [replay_append]
  exact hafter

/-! ### Sequences of operations -/

/-- Publications of a store go no deeper than `put` allows: all listeners answer all events alike,
or the depth is one that `put` allows anyway. -/
def WithinLimit (limit : Store → Nat) (store : Store) : Prop :=
  (∀ listener ∈ store.listeners, listener.AnswersAlike) ∨ ∀ store, limit store ≤ nestingLimit

/-- An operation that ends however deep it goes ends within the limit of `put`. -/
theorem run_depthLimit {limit : Store → Nat} {operation : Operation} {last : Store}
    (hlimit : store.WithinLimit limit) (h : operation.run limit store = .ok () last) :
    operation.run depthLimit store = .ok () last := by
  cases operation with
  | put event =>
    rcases hlimit with halike | hle
    · exact put_of_putWithin halike h
    · refine putWithin_mono (Nat.le_trans (hle store) ?_) h
      rw [depthLimit, Nat.add_assoc]
      exact Nat.le_add_right _ _
  | _ => exact h

theorem listeners_run {limit : Store → Nat} {operation : Operation} {last : Store}
    (h : operation.run limit store = .ok () last) : last.listeners = store.listeners := by
  rw [Operation.run_eq] at h
  obtain ⟨record, _, htell, h⟩ := bind_eq_ok h
  cases h
  exact (told_tell operation htell).listeners

/-- **Takers, channels and nested publications.**  From a store in which nobody waits, let any
operations be carried out, with publications as deep as may be.  Whoever takes gets the first event
of the kinds asked for that is delivered afterwards, unless the wait is cancelled before; a channel
receives all events of its kinds that are delivered until it is closed, in order; and an event is
delivered when the slices and all listeners are through with it and with all that was published
meanwhile.  The depth that `put` allows is enough if no publication is nested deeper than
`nestingLimit`, and at any depth if every listener answers all events alike. -/
theorem operations_deliver {limit : Store → Nat} {store last : Store} (hvacant : store.IsVacant)
    {operations : List Operation}
    (h : operations.forM (Operation.run limit) store = .ok () last) :
    (store.WithinLimit limit → operations.forM (Operation.run depthLimit) store = .ok () last)
      ∧ ∃ record, collect (Operation.tell limit) operations store = .ok record last
        ∧ (∀ before ticket kinds after, record = before ++ .took ticket kinds :: after →
          last.gotBy ticket = (eventsFor kinds
            (after.takeWhile fun happening => !happening.cancels ticket)).take 1)
        ∧ (∀ before ticket kinds after, record = before ++ .subscribed ticket kinds :: after →
          last.waitingIn ticket = eventsFor kinds
            (after.takeWhile fun happening => !happening.closes ticket))
        ∧ (∀ number event, .reduced number event ∈ record →
          Settled (hearers · store) record number event)
        ∧ ∀ before number event after, record = before ++ .delivered number event :: after →
          ∃ earlier inside, before = earlier ++ .reduced number event :: inside
            ∧ Completes (hearers · store) number event inside after := by
  constructor
  · intro hlimit
    refine forM_exchange (WithinLimit limit)
      (fun operation _ store last hlimit h => ⟨run_depthLimit hlimit h, ?_⟩) hlimit h
    rw [WithinLimit, listeners_run h]
    exact hlimit
  · rw [forM_eq_silently (Operation.run_eq limit)] at h
    obtain ⟨record, _, hrecord, h⟩ := bind_eq_ok h
    cases h
    -- each operation tells its part of the record, and what is stated follows from its shape
    have htold : Told none (operations.flatMap fun _ => []) store last record :=
      Told.collect (fun operation _ _ _ h _ => told_tell operation h) operations hrecord nofun
    refine ⟨record, hrecord, ?_, ?_, htold.inside.settled, htold.inside.completes⟩
    · rintro before ticket kinds after rfl
      obtain ⟨hb, ha⟩ := not_mem_ticketsOf rfl htold.once
      rw [htold.mail.gotBy]
      exact hvacant.gotBy_took hb ha
    · rintro before ticket kinds after rfl
      obtain ⟨hb, ha⟩ := not_mem_ticketsOf rfl htold.once
      rw [htold.mail.waitingIn]
      exact hvacant.waitingIn_subscribed hb ha

/-- A listener that answers a TICK with a JUMP by two, and every JUMP with a shorter one. -/
def springing (event : Event) : List Event :=
  match event.payload.delta with
  | none => [.jump 2]
  | some delta => if 0 < delta then [.jump (delta - 1)] else []

/-- A store with that listener. -/
def springy : Store := { listeners := [.relay "spring" [.tick, .jump] springing] }

/-- Two takers of which the second waits for either event, one that gives up, and a channel that is
closed after the first TICK. -/
def springyOperations : List Operation :=
  [.take [.tick], .take [.tick, .jump], .take [.tock], .cancel 2, .subscribe [.jump, .tick],
    .put .tick, .unsubscribe 3, .put .tock, .put .tick]

/-- The JUMPs are published inside the TICK, each in the one before, and the innermost comes
first. -/
theorem springy_operations_deliver : springy.IsVacant ∧ ∃ last record,
    springyOperations.forM (Operation.run depthLimit) springy = .ok () last
      ∧ collect (Operation.tell depthLimit) springyOperations springy = .ok record last
      ∧ (∀ before ticket kinds after, record = before ++ .took ticket kinds :: after →
        last.gotBy ticket = (eventsFor kinds
          (after.takeWhile fun happening => !happening.cancels ticket)).take 1)
      ∧ [0, 1, 2].map (fun ticket => (last.gotBy ticket).map (·.kind)) = [[.tick], [.jump], []]
      ∧ (last.waitingIn 3).map (·.payload.delta) = [some 0, some 1, some 2, none] := by
  have hvacant : springy.IsVacant := ⟨rfl, rfl, rfl⟩
  have hrun : (match springyOperations.forM (Operation.run depthLimit) springy with
      | .ok () last =>
        decide ([0, 1, 2].map (fun ticket => (last.gotBy ticket).map (·.kind))
            = [[.tick], [.jump], []]
          ∧ (last.waitingIn 3).map (·.payload.delta) = [some 0, some 1, some 2, none])
      | .error _ _ => false) = true := by decide +kernel
  split at hrun
  · rename_i last hlast
    obtain ⟨-, record, hrecord, htook, -⟩ := operations_deliver hvacant hlast
    exact ⟨hvacant, last, record, hlast, hrecord, htook, of_decide_eq_true hrun⟩
  · cases hrun

end Store

end TraceDebugger
