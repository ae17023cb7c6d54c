/-
What happens in a store, in order.

Operations on a store are told as a record of happenings.  An event is known by its number, that is,
by how many events were published before it, so that two events that look the same can be told
apart.

* `putWithin_eq` — telling what happens while an event is published changes nothing;
* `tellWithin_eq_ok` — what a publication that succeeds consists of;
* `SameMail.replay` — a record has the same effect on all stores in which the same receivers wait.
-/
import TraceDebugger.Store.Publish
import Mathlib.Tactic.Common

namespace TraceDebugger

/-- What happens in a store. -/
inductive Happening where
  /-- Somebody waits for the next event of some kinds. -/
  | took (ticket : Ticket) (kinds : List EventKind)
  | cancelled (ticket : Ticket)
  | subscribed (ticket : Ticket) (kinds : List EventKind)
  | unsubscribed (ticket : Ticket)
  /-- The slices have taken an event. -/
  | reduced (number : Nat) (event : Event)
  /-- A listener has heard an event, and all that it answered has been published. -/
  | heard (number : Nat) (listener : Listener)
  /-- So has a tripwire. -/
  | tripped (number : Nat) (wire : Tripwire)
  /-- All listeners are through with an event, and it is delivered. -/
  | delivered (number : Nat) (event : Event)

namespace Happening

/-- The number of the event that a happening is about. -/
def number? : Happening → Option Nat
  | reduced number _ | heard number _ | tripped number _ | delivered number _ => some number
  | _ => none

/-- The ticket that is given out in a happening. -/
def ticket? : Happening → Option Ticket
  | took ticket _ | subscribed ticket _ => some ticket
  | _ => none

/-- The tickets that are given out in a record. -/
def ticketsOf (record : List Happening) : List Ticket := record.filterMap ticket?

theorem ticketsOf_append (first second : List Happening) :
    ticketsOf (first ++ second) = ticketsOf first ++ ticketsOf second :=
  List.filterMap_append

theorem not_mem_ticketsOf_cons {ticket : Ticket} {happening : Happening} {rest : List Happening} :
    ticket ∉ ticketsOf (happening :: rest)
      ↔ happening.ticket? ≠ some ticket ∧ ticket ∉ ticketsOf rest := by
  simp [ticketsOf]

/-- Somebody hears the event of a number. -/
inductive IsHearing (number : Nat) : Happening → Prop
  | heard (listener : Listener) : IsHearing number (.heard number listener)
  | tripped (wire : Tripwire) : IsHearing number (.tripped number wire)

/-- The listener that has heard the event of a number. -/
def hearerOf? (number : Nat) : Happening → Option Listener
  | heard other listener => if other = number then some listener else none
  | _ => none

/-- The listeners that have heard the event of a number, in order. -/
def hearersOf (number : Nat) (record : List Happening) : List Listener :=
  record.filterMap (hearerOf? number)

theorem hearersOf_append (number : Nat) (first second : List Happening) :
    hearersOf number (first ++ second) = hearersOf number first ++ hearersOf number second :=
  List.filterMap_append

theorem number?_of_hearerOf? {number : Nat} {happening : Happening} {listener : Listener}
    (h : happening.hearerOf? number = some listener) : happening.number? = some number := by
  cases happening with
  | heard other listener' =>
    rw [hearerOf?] at h
    split at h
    · rename_i hn
      exact congrArg some hn
    · cases h
  | _ => cases h

/-- Where nothing is about an event, nobody hears it. -/
theorem hearersOf_eq_nil {number : Nat} {record : List Happening}
    (h : ∀ happening ∈ record, happening.number? ≠ some number) : hearersOf number record = [] := by
  refine List.filterMap_eq_nil_iff.mpr fun happening hh => ?_
  cases hl : happening.hearerOf? number with
  | none => rfl
  | some listener => exact absurd (number?_of_hearerOf? hl) (h happening hh)

end Happening

namespace Store

open Happening

/-! ### Telling -/

/-- Do one thing after the other, and put together what is told of them. -/
def collect {α : Type} (task : α → StoreM (List Happening)) : List α → StoreM (List Happening)
  | [] => pure []
  | a :: rest => do
    let first ← task a
    let more ← collect task rest
    return first ++ more

/-- Publish an event as `putWithin` does, and tell what happens. -/
def tellWithin : Nat → Event → StoreM (List Happening)
  | 0, _ => throw (.unfit .endless)
  | depth + 1, event => do
    let number := (← get).published.length
    modify (note event)
    takeIn event
    let heard ← collect (fun listener => do
        let inner ← collect (tellWithin depth) (← hear event listener)
        return inner ++ [.heard number listener]) (hearers event.kind (← get))
    let tripped ← collect (fun wire => do
        let inner ← collect (tellWithin depth) (← trip event wire)
        return inner ++ [.tripped number wire]) (← get).tripwires
    modify (deliver event)
    return .reduced number event :: (heard ++ tripped) ++ [.delivered number event]

/-- Do something and do not tell of it. -/
def silently (task : StoreM (List Happening)) : StoreM Unit := task >>= fun _ => pure ()

theorem forM_eq_silently {α : Type} {act : α → StoreM Unit} {task : α → StoreM (List Happening)}
    (h : ∀ a, act a = silently (task a)) (l : List α) :
    l.forM act = silently (collect task l) := by
  induction l with
  | nil => rfl
  | cons a rest ih =>
    show (act a >>= fun _ => rest.forM act) = _
    rw [h, ih, silently, silently, silently, collect]
    simp only [bind_assoc, pure_bind]

/-- Telling what happens changes nothing. -/
theorem putWithin_eq (depth : Nat) : ∀ event, putWithin depth event
    = silently (tellWithin depth event) := by
  induction depth with
  | zero => exact fun _ => rfl
  | succ depth ih =>
    intro event
    -- each listener's answers, and then what is told of them
    have hone {α : Type} (answer : α → StoreM (List Event)) (what : α → Happening) (a : α) :
        (do (← answer a).forM (putWithin depth) : StoreM Unit) = silently (do
          let inner ← collect (tellWithin depth) (← answer a)
          return inner ++ [what a]) := by
      have hforM (l : List Event) := forM_eq_silently ih l
      simp only [hforM, silently, bind_assoc, pure_bind]
    have hheard (number : Nat) (l : List Listener) :=
      forM_eq_silently (hone (hear event) (.heard number)) l
    have htripped (number : Nat) (l : List Tripwire) :=
      forM_eq_silently (hone (trip event) (.tripped number)) l
    funext store
    rw [putWithin, tellWithin]
    simp only [hheard store.published.length, htripped store.published.length, silently, bind_assoc,
      pure_bind]
    rfl

/-- What is done step by step succeeds if every step does. -/
theorem bind_eq_ok {α β : Type} {task : StoreM α} {next : α → StoreM β} {store last : Store} {b : β}
    (h : (task >>= next) store = .ok b last) :
    ∃ a middle, task store = .ok a middle ∧ next a middle = .ok b last := by
  change EStateM.bind task next store = _ at h
  rw [EStateM.bind] at h
  split at h
  · exact ⟨_, _, ‹_›, h⟩
  · cases h

/-- The answers of somebody who hears an event are published, and then it is told who has heard. -/
def tellHearing {α : Type} (depth : Nat) (answer : α → StoreM (List Event)) (what : α → Happening)
    (a : α) : StoreM (List Happening) := do
  let inner ← collect (tellWithin depth) (← answer a)
  return inner ++ [what a]

/-- What a publication that succeeds consists of. -/
theorem tellWithin_eq_ok {depth : Nat} {event : Event} {store last : Store}
    {record : List Happening} (h : tellWithin (depth + 1) event store = .ok record last) :
    ∃ reduced heard middle tripped after,
      takeIn event (store.note event) = .ok () reduced
        ∧ collect (tellHearing depth (hear event) (.heard store.published.length))
          (hearers event.kind reduced) reduced = .ok heard middle
        ∧ collect (tellHearing depth (trip event) (.tripped store.published.length))
          middle.tripwires middle = .ok tripped after
        ∧ record = .reduced store.published.length event :: (heard ++ tripped)
          ++ [.delivered store.published.length event]
        ∧ last = after.deliver event := by
  rw [tellWithin] at h
  obtain ⟨_, _, hget, h⟩ := bind_eq_ok h
  cases hget
  obtain ⟨_, _, hnote, h⟩ := bind_eq_ok h
  cases hnote
  obtain ⟨_, reduced, htake, h⟩ := bind_eq_ok h
  obtain ⟨_, _, hget, h⟩ := bind_eq_ok h
  cases hget
  -- the listeners are those after the slices have taken the event, and the tripwires come last
  obtain ⟨heard, middle, hheard, h⟩ := bind_eq_ok h
  obtain ⟨_, _, hget, h⟩ := bind_eq_ok h
  cases hget
  obtain ⟨tripped, after, htripped, h⟩ := bind_eq_ok h
  cases h
  exact ⟨reduced, heard, middle, tripped, after, htake, hheard, htripped, rfl, rfl⟩

/-! ### Mail -/

/-- Two stores agree in who waits for what, and in what has been received. -/
structure SameMail (store other : Store) : Prop where
  takers : store.takers = other.takers
  channels : store.channels = other.channels
  outcomes : store.outcomes = other.outcomes

theorem SameMail.refl (store : Store) : SameMail store store := ⟨rfl, rfl, rfl⟩

theorem SameMail.trans {store other third : Store} (h : SameMail store other)
    (h' : SameMail other third) : SameMail store third :=
  ⟨h.takers.trans h'.takers, h.channels.trans h'.channels, h.outcomes.trans h'.outcomes⟩

theorem SameMail.deliver {store other : Store} (h : SameMail store other) (event : Event) :
    SameMail (store.deliver event) (other.deliver event) := by
  obtain ⟨ht, hc, ho⟩ := h
  simp only [Store.deliver, ht, hc, ho]
  exact ⟨rfl, rfl, rfl⟩

/-- Two stores differ in the workbench and the tripwires at most. -/
structure SameTraffic (store other : Store) : Prop where
  mail : SameMail store other
  listeners : store.listeners = other.listeners
  published : store.published = other.published
  nextTicket : store.nextTicket = other.nextTicket

theorem sameTraffic_takeIn {event : Event} {store last : Store}
    (h : takeIn event store = .ok () last) : SameTraffic last store := by
  rw [takeIn] at h
  split at h
  · cases h
    exact ⟨⟨rfl, rfl, rfl⟩, rfl, rfl, rfl⟩
  · cases h

theorem sameTraffic_hear {event : Event} {listener : Listener} {store last : Store}
    {events : List Event} (h : hear event listener store = .ok events last) :
    SameTraffic last store := by
  rw [hear] at h
  split at h
  · cases h
    exact ⟨⟨rfl, rfl, rfl⟩, rfl, rfl, rfl⟩
  · cases h

theorem sameTraffic_trip {event : Event} {wire : Tripwire} {store last : Store}
    {events : List Event} (h : trip event wire store = .ok events last) :
    SameTraffic last store := by
  rw [trip] at h
  split at h <;> cases h <;> exact ⟨⟨rfl, rfl, rfl⟩, rfl, rfl, rfl⟩

end Store

/-- What a happening does to those who wait and to those who have received. -/
def Happening.effect (store : Store) : Happening → Store
  | took ticket kinds => { store with takers := store.takers ++ [⟨ticket, kinds⟩] }
  | cancelled ticket => store.cancel ticket
  | subscribed ticket kinds => { store with channels := store.channels ++ [{ ticket, kinds }] }
  | unsubscribed ticket => store.unsubscribe ticket
  | delivered _ event => store.deliver event
  | _ => store

namespace Store

open Happening

/-- A record has its effect, one happening after the other. -/
def replay (store : Store) (record : List Happening) : Store :=
  record.foldl Happening.effect store

theorem replay_append (store : Store) (first second : List Happening) :
    store.replay (first ++ second) = (store.replay first).replay second :=
  List.foldl_append

theorem SameMail.effect {store other : Store} (h : SameMail store other) (happening : Happening) :
    SameMail (happening.effect store) (happening.effect other) := by
  have ⟨ht, hc, ho⟩ := h
  cases happening with
  | took ticket kinds => exact ⟨congrArg (· ++ _) ht, hc, ho⟩
  | cancelled ticket => exact ⟨congrArg (List.filter _) ht, hc, ho⟩
  | subscribed ticket kinds => exact ⟨ht, congrArg (· ++ _) hc, ho⟩
  | unsubscribed ticket => exact ⟨ht, congrArg (List.map _) hc, ho⟩
  | delivered number event => exact h.deliver event
  | _ => exact h

theorem SameMail.replay {store other : Store} (h : SameMail store other)
    (record : List Happening) : SameMail (store.replay record) (other.replay record) := by
  induction record generalizing store other with
  | nil => exact h
  | cons happening rest ih => exact ih (h.effect happening)

/-- Hearing an event gives nobody anything. -/
theorem replay_hearing (store : Store) {number : Nat} {happening : Happening}
    (h : IsHearing number happening) : store.replay [happening] = store := by
  cases h <;> rfl

end Store

end TraceDebugger
