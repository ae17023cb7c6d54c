/-
Whose cycle a call gets.

Commands reach the dispatcher from a caller and from outside.  A call is refused while another one
waits or a cycle runs; but the dispatcher may have taken a command that it has yet to begin, and
nothing tells of that.  A call that is given then gets the cycle of the command that was taken, and
its own is dropped.

* `Mixed`, `Amid` — a session that is given commands by a caller and from outside, and what may
  happen while a call waits;
* `Balanced`, `Mixed.exists_balanced` — the books of a session between turns;
* `Serves`, `Serves.moves` — how far a call is for the command that serves it: one cycle of that
  command is begun and ended, and then the call is answered;
* `calls_served` — which calls are refused, and which command serves those that are not.
-/
import TraceDebugger.Proofs.Session.Handover
import TraceDebugger.Proofs.Session.Chronicle
import TraceDebugger.Proofs.Session.Waiting

namespace TraceDebugger

namespace Session

/-- What may happen to a session while a call waits: turns are taken, events other than the bounds
of cycles are published from outside, and listeners come and go that publish such events. -/
inductive Amid (session : Session) : Session → Prop
  | here : Amid session session
  | turn {middle last : Session} (h : Amid session middle) (hs : middle.step? = some last) :
      Amid session last
  | put {middle : Session} (h : Amid session middle) {event : Event} (hk : event.Unbound) :
      Amid session (middle.put event).1
  | arm {middle : Session} (h : Amid session middle) (kind : EventKind) (cursor : Option Int)
      {event : Event} (hk : event.Unbound) :
      Amid session (middle.onStore (Store.arm kind cursor event))
  | disarm {middle : Session} (h : Amid session middle) :
      Amid session (middle.onStore Store.disarm)

/-- A session that has loaded its trace, whatever has been asked of it since: a caller has given
commands, one after the other, and other events, commands as well, have been published at any
time. -/
inductive Mixed (origin : Session) : Session → Prop
  | origin : Mixed origin origin
  | give {session : Session} (h : Mixed origin session) (hi : session.caller = .idle)
      {command : Command} {event : Event} (hk : event.kind = .command command) :
      Mixed origin (session.give command event)
  | amid {session last : Session} (h : Mixed origin session) (ha : Amid session last) :
      Mixed origin last
  | release {session : Session} {result : Except Fault Reply} (h : Mixed origin session)
      (ha : session.caller = .answered result) : Mixed origin session.release

variable {origin session here next : Session} {ledger : Ledger} {desk : Desk} {call : Call}
  {command : Command} {event : Event} {bounds : List Event}

/-! ### Balanced books -/

/-- The books of a session between turns. -/
structure Balanced (session : Session) (ledger : Ledger) : Prop where
  keeps : session.Keeps [] ledger
  /-- A cycle is begun and ended within a turn. -/
  settled : ledger.desk ≠ .busy
  given : ∀ reply, ledger.call ≠ .issuing reply

theorem settled_of_enters {ledger' : Ledger} (h : ledger.Enters ledger')
    (hd : ledger.desk ≠ .busy) (hc : ∀ reply, ledger.call ≠ .issuing reply) :
    ledger'.desk ≠ .busy ∧ ∀ reply, ledger'.call ≠ .issuing reply := by
  have hhear (call : Call) (command : Command) (interrupted : Bool)
      (hc : ∀ reply, call ≠ .issuing reply) (reply : Ticket) :
      call.hear command interrupted ≠ .issuing reply := by
    cases call with
    | waiting => simp [Call.hear]
    | _ => exact hc reply
  obtain rfl | hmoves := h
  · exact ⟨hd, hc⟩
  · -- by the entry in the books; where a command ends, a call may be answered but none is issued
    cases hmoves with
    | takes | begins | fails => exact ⟨by simp, hc⟩
    | ends interrupted => exact ⟨by simp, hhear _ _ interrupted hc⟩
    | breaks interrupted hcall =>
      obtain rfl | rfl := hcall
      · exact ⟨by simp, hc⟩
      · exact ⟨by simp, hhear _ _ interrupted hc⟩
    | answers => exact ⟨hd, by simp⟩
    | gives => simp

theorem Balanced.enters {ledger' : Ledger} (h : session.Balanced ledger)
    (he : ledger.Enters ledger') (hk : next.Keeps [] ledger') : next.Balanced ledger' :=
  ⟨hk, (settled_of_enters he h.settled h.given).1, (settled_of_enters he h.settled h.given).2⟩

/-- Whatever happens while a call waits is entered in the books. -/
theorem Balanced.amid (h : session.Balanced ledger) (ha : Amid session next) :
    ∃ ledger', Relation.ReflTransGen Ledger.Moves ledger ledger' ∧ next.Balanced ledger' := by
  have hgoes {middle after : Session} {ledger' ledger'' : Ledger}
      (hmoves : Relation.ReflTransGen Ledger.Moves ledger ledger')
      (hmiddle : middle.Balanced ledger') (he : ledger'.Enters ledger'')
      (hk : after.Keeps [] ledger'') :
      ∃ ledger', Relation.ReflTransGen Ledger.Moves ledger ledger' ∧ after.Balanced ledger' := by
    refine ⟨ledger'', ?_, hmiddle.enters he hk⟩
    obtain rfl | hmove := he
    · exact hmoves
    · exact hmoves.tail hmove
  -- on what has happened last: each time the books get one entry at most
  induction ha with
  | here => exact ⟨ledger, .refl, h⟩
  | turn _ hs ih =>
    obtain ⟨ledger', hmoves, hmiddle⟩ := ih
    obtain ⟨ledger'', he, hk⟩ := hmiddle.keeps.step hmiddle.given hs
    exact hgoes hmoves hmiddle he hk
  | put _ hk ih =>
    obtain ⟨ledger', hmoves, hmiddle⟩ := ih
    obtain ⟨ledger'', hhears, hkeeps, -⟩ := hmiddle.keeps.put hk
    exact hgoes hmoves hmiddle hhears.enters hkeeps
  | arm _ kind cursor hk ih =>
    obtain ⟨ledger', hmoves, hmiddle⟩ := ih
    refine hgoes hmoves hmiddle (.inl rfl) (hmiddle.keeps.rewired (fun wire hw => ?_)
      (Nat.le_succ _))
    rcases List.mem_append.mp hw with hw | hw
    · exact hmiddle.keeps.wires wire hw
    · obtain rfl := List.mem_singleton.mp hw
      exact hk
  | disarm _ ih =>
    obtain ⟨ledger', hmoves, hmiddle⟩ := ih
    exact hgoes hmoves hmiddle (.inl rfl)
      (hmiddle.keeps.rewired (fun wire hw => by cases hw) (Nat.le_refl _))

/-- Turns in a row may be taken while a call waits. -/
theorem Amid.steps {count : Nat} (h : Amid origin session) (hs : Steps count session next) :
    Amid origin next := by
  induction hs with
  | refl => exact h
  | cons hstep _ ih => exact ih (h.turn hstep)

/-! ### Giving a command -/

/-- A call is refused just while another one waits or a cycle runs. -/
theorem Keeps.refusal?_eq (h : session.Keeps [] ledger) (hd : ledger.desk.Alive)
    (command : Command) :
    session.refusal? command
      = (session.running.or (session.ownCycle.map (·.command))).map
          fun running => .commandInProgress command.name running.name := by
  have hbusy : session.busyWith = session.running.or (session.ownCycle.map (·.command)) := by
    rw [busyWith, h.active, h.cycle]
  rw [refusal?, if_pos h.loaded, hbusy]
  cases hdispatcher : session.dispatcher with
  | crashed fault => exact absurd (h.tends.crashed_iff.mp hdispatcher) (hd fault)
  | _ => cases session.running.or (session.ownCycle.map (·.command)) <;> rfl

/-- What is published while a command is given: no bounds of cycles, and no command but that one and
those of listeners. -/
def Brings (session : Session) (given event : Event) : Prop :=
  event.Unbound ∧ (event.kind ∈ EventKind.commands →
    event = given ∨ ∃ wire ∈ session.store.tripwires, event = wire.event)

theorem unbound_of_command (hk : event.kind = .command command) : event.Unbound := by
  rw [Event.Unbound, hk]
  cases command <;> decide

theorem command_mem_commands (hk : event.kind = .command command) :
    event.kind ∈ EventKind.commands := by
  rw [hk]
  cases command <;> decide

theorem brings_of_derived {given : Event} (event : Event) (hd : event.Derived) :
    session.Brings given event := by
  have hapart : ∀ kind ∈ EventKind.derived, kind ∉ EventKind.commands := by decide
  exact ⟨unbound_of_derived event hd, fun hk => absurd hk (hapart _ hd.kind_mem)⟩

/-- A command is published: the dispatcher takes it or another one, unless the publication fails. -/
theorem Keeps.put_command (h : session.Keeps [] ledger) (hk : event.kind = .command command) :
    ∃ ledger', ledger.Hears (session.Brings event) ledger' ∧
      (session.put event).1.Keeps [] ledger' ∧
      ((session.put event).2 = none → ledger'.desk ≠ .free) := by
  have hlasting : Store.Lasting (session.Brings event)
      (session.Publishing (session.Brings event) ledger) :=
    lasting_publishing (fun _ hfit => hfit.1) brings_of_derived session ledger
  have hwires : ∀ wire ∈ session.store.tripwires, session.Brings event wire.event :=
    fun wire hw => ⟨h.wires wire hw, fun _ => .inr ⟨wire, hw, rfl⟩⟩
  have hnoted := h.publishing hwires
  obtain ⟨after, hput, -, -, pending, ledger', hhears, hkeeps⟩ |
      ⟨fault, last, hput, -, -, pending, ledger', hhears, hkeeps⟩ :=
    hlasting.put_cases (hlasting.note ⟨unbound_of_command hk, fun _ => .inl rfl⟩ hnoted)
  · -- the command is delivered after those that listeners published, and may find nobody waiting
    obtain ⟨ledger'', hhears', hserved, hdelivered⟩ :=
      hkeeps.deliver (unbound_of_command hk).kind_ne_endStep
    have hfit : ∀ event', event' = event → session.Brings event event' := by
      rintro _ rfl
      exact ⟨unbound_of_command hk, fun _ => .inl rfl⟩
    have hreached : session.put event = (_, none) := attempt_ok hput
    rw [hreached]
    exact ⟨ledger'', hhears.trans (hhears'.mono hfit), hdelivered.tellAll,
      fun _ => hserved (command_mem_commands hk)⟩
  · have hreached : session.put event = (_, some fault) := attempt_error hput
    rw [hreached]
    exact ⟨ledger', hhears, hkeeps.tellAll, by simp⟩

/-- A caller that waits for nothing is given an answer. -/
theorem Keeps.answer (h : session.Keeps [] ⟨desk, call, bounds⟩)
    (hcall : call = .nobody ∨ ∃ reply, call = .issuing reply) (result : Except Fault Reply) :
    (({ session with running := none } : Session).answer result).Keeps []
      ⟨desk, .answered result, bounds⟩ := by
  have hreplies : desk.Alive → repliesOf session.turns = [] := by
    have hcalls : Calls session desk call := h.calls
    obtain rfl | ⟨reply, rfl⟩ := hcall
    · cases hcalls with
      | nobody _ _ ht => exact ht
    · cases hcalls with
      | issuing _ _ _ _ ht => exact ht
  exact h.anew rfl rfl rfl rfl
    (h.tends.congr (.refl h.fresh) rfl rfl)
    (.answered rfl rfl hreplies)

/-- A session that is about to publish the command of a call. -/
def issuing (command : Command) (session : Session) : Session :=
  (({ session with running := some command } : Session).take [.endStep]).2

theorem Keeps.issuing (h : session.Keeps [] ⟨desk, .nobody, bounds⟩) (command : Command) :
    (session.issuing command).Keeps [] ⟨desk, .issuing session.store.nextTicket, bounds⟩ := by
  have htaken := h.take [.endStep]
  have hcalls : Calls session desk .nobody := h.calls
  cases hcalls with
  | nobody hc _ ht =>
    exact htaken.anew rfl rfl rfl rfl
      (h.tends.congr (h.fresh.spares_take [.endStep]) rfl rfl)
      (.issuing hc rfl (h.fresh.waits_take [.endStep]) h.fresh.outcome?_nextTicket ht)

theorem Tends.ne_absent (h : Tends session desk) : session.dispatcher ≠ .absent := by
  cases h with
  | free hd | told hd | holding hd | busy hd | running hd | crashed hd => simp [hd]

/-- A caller that has published its command waits for its end. -/
theorem Keeps.waiting {reply : Ticket} (h : session.Keeps [] ⟨desk, .issuing reply, bounds⟩) :
    ({ session with caller := .commanding reply false } : Session).Keeps []
      ⟨desk, .waiting, bounds⟩ := by
  have hcalls : Calls session desk (.issuing reply) := h.calls
  cases hcalls with
  | issuing _ hr hw _ ht =>
    exact h.anew rfl rfl rfl rfl (h.tends.congr (.refl h.fresh) rfl rfl)
      (.waiting rfl hr hw fun hd => ⟨rfl, ht hd⟩)

/-- A caller gives a command that is not refused: it waits, or has been told why the command could
not be published.  The dispatcher may have taken a command. -/
theorem Keeps.issue (h : session.Keeps [] ⟨desk, .nobody, bounds⟩)
    (hk : event.kind = .command command) :
    ∃ desk', (desk' = desk ∨ ∃ taken served, desk = .free ∧ session.Brings event taken ∧
        taken.kind = .command served ∧ desk' = .holding taken) ∧
      ((∃ fault, (session.issue command event).Keeps []
          ⟨desk', .answered (.error fault), bounds⟩) ∨
        desk' ≠ .free ∧ (session.issue command event).Keeps [] ⟨desk', .waiting, bounds⟩) := by
  have hissuing := h.issuing command
  obtain ⟨⟨desk', call', bounds'⟩, hhears, hkeeps, hserved⟩ := hissuing.put_command hk
  obtain ⟨hdesk, rfl, rfl⟩ : (desk' = desk ∨ ∃ taken served, desk = .free ∧
      session.Brings event taken ∧ taken.kind = .command served ∧ desk' = .holding taken) ∧
        call' = .issuing session.store.nextTicket ∧ bounds' = bounds := by
    obtain heq | ⟨taken, served, hfree, hbrings, htaken, heq⟩ := hhears
    · obtain ⟨rfl, rfl, rfl⟩ := Ledger.mk.inj heq
      exact ⟨.inl rfl, rfl, rfl⟩
    · obtain ⟨rfl, rfl, rfl⟩ := Ledger.mk.inj heq
      exact ⟨.inr ⟨taken, served, hfree, hbrings, htaken, rfl⟩, rfl, rfl⟩
  refine ⟨desk', hdesk, ?_⟩
  have hpublished {reached : Session} {fault : Option Fault}
      (hput : (session.issuing command).put event = (reached, fault)) :
      reached.Keeps [] ⟨desk', .issuing session.store.nextTicket, bounds'⟩ ∧
        (fault = none → desk' ≠ .free) := by
    rw [hput] at hkeeps hserved
    exact ⟨hkeeps, hserved⟩
  fun_cases Session.issue command event session with
  | case1 ticket taken htake reached fault hput =>
    obtain ⟨rfl, rfl⟩ := Prod.mk.inj htake
    exact .inl ⟨fault, (hpublished hput).1.answer (.inr ⟨_, rfl⟩) (.error fault)⟩
  | case2 ticket taken htake reached habsent =>
    obtain ⟨rfl, rfl⟩ := Prod.mk.inj htake
    exact absurd habsent h.tends.ne_absent
  | case3 ticket taken htake reached hput waiting hsome =>
    obtain ⟨rfl, rfl⟩ := Prod.mk.inj htake
    -- nobody has told the caller of an end while it gave its command
    obtain ⟨hreached, -⟩ := hpublished hput
    have hcalls : Calls reached desk' (.issuing session.store.nextTicket) := hreached.calls
    cases hcalls with
    | issuing _ _ _ ho _ =>
      have hnothing : (reached.store.outcome? session.store.nextTicket).isSome = true := hsome
      rw [ho] at hnothing
      cases hnothing
  | case4 ticket taken htake reached hput =>
    obtain ⟨rfl, rfl⟩ := Prod.mk.inj htake
    obtain ⟨hreached, hfree⟩ := hpublished hput
    exact .inr ⟨hfree rfl, hreached.waiting⟩

/-- A caller has been answered just if the books say so. -/
theorem Calls.answered_iff (h : Calls session desk call) {result : Except Fault Reply} :
    session.caller = .answered result ↔ call = .answered result := by
  cases h with
  | answered hc => rw [hc, CallerStatus.answered.injEq, Call.answered.injEq]
  | nobody hc | issuing hc | waiting hc | ended hc => simp [hc]

theorem Balanced.call_eq (h : session.Balanced ledger) (hi : session.caller = .idle) :
    ledger.call = .nobody := by
  obtain ⟨desk, call, bounds⟩ := ledger
  have hcalls : Calls session desk call := h.keeps.calls
  cases hcalls with
  | nobody => rfl
  | issuing => exact absurd rfl (h.given _)
  | waiting hc => cases hc.symm.trans hi
  | ended hc => cases hc.symm.trans hi
  | answered hc => cases hc.symm.trans hi

theorem Balanced.give (h : session.Balanced ledger) (hi : session.caller = .idle)
    (hk : event.kind = .command command) :
    ∃ ledger', (session.give command event).Balanced ledger' := by
  have hcall := h.call_eq hi
  obtain ⟨desk, call, bounds⟩ := ledger
  obtain rfl : call = .nobody := hcall
  rw [Session.give]
  split
  · -- a refusal is an answer that nobody had to wait for
    rename_i fault _
    have hcalls : Calls session desk .nobody := h.keeps.calls
    cases hcalls with
    | nobody hc hr ht =>
      have hsame : ({ session with running := none } : Session) = session := by rw [← hr]
      have hanswer := h.keeps.answer (.inl rfl) (.error fault)
      rw [hsame] at hanswer
      exact ⟨_, hanswer, h.settled, by simp⟩
  · obtain ⟨desk', hdesk, hissue⟩ := h.keeps.issue hk
    -- the command is taken at once or waits for the dispatcher; neither leaves the dispatcher busy
    have hsettled : desk' ≠ .busy := by
      obtain rfl | ⟨_, _, -, -, -, rfl⟩ := hdesk
      · exact h.settled
      · simp
    obtain ⟨fault, hanswered⟩ | ⟨-, hwaiting⟩ := hissue
    · exact ⟨_, hanswered, hsettled, by simp⟩
    · exact ⟨_, hwaiting, hsettled, by simp⟩

theorem Balanced.release {result : Except Fault Reply} (h : session.Balanced ledger)
    (ha : session.caller = .answered result) : ∃ ledger', session.release.Balanced ledger' := by
  obtain ⟨desk, call, bounds⟩ := ledger
  have hcalls : Calls session desk call := h.keeps.calls
  obtain rfl := hcalls.answered_iff.mp ha
  have hrelease : session.release = { session with caller := .idle } := by
    rw [Session.release, ha]
  cases hcalls with
  | answered _ hr ht =>
    rw [hrelease]
    exact ⟨_, h.keeps.anew rfl rfl rfl rfl
      (h.keeps.tends.congr (.refl h.keeps.fresh) rfl rfl)
      (.nobody rfl hr ht), h.settled, by simp⟩

/-- A session that has just loaded a trace has empty books. -/
theorem Loaded.balanced (h : Loaded origin) :
    origin.Balanced ⟨.free, .nobody, TraceDebugger.bounds origin.store.published⟩ := by
  obtain ⟨steps, base, ticket, rfl, hstanding, -, -, -⟩ := h.fresh
  have htaker {taker : Taker} (ht : taker ∈ (base.rest (.ready ticket)).store.takers) :
      taker = ⟨ticket, EventKind.commands⟩ := List.mem_singleton.mp ht
  have hticket := hstanding.ticket ticket rfl
  refine ⟨{
    notices := rfl
    listeners := rfl
    wires := fun _ hw => by cases hw
    loaded := hstanding.sound.loaded
    fresh := ⟨fun taker ht => htaker ht ▸ hticket, hstanding.sound.fresh,
      fun _ hn => by cases hn⟩
    direct := rfl
    bounds := rfl
    active := hstanding.active
    cycle := rfl
    aloof := fun _ hc => by cases hc
    tends := .free rfl ⟨List.mem_cons_self, fun taker ht _ => htaker ht ▸ rfl,
      fun hn => by cases hn⟩ rfl
    calls := .nobody rfl rfl fun _ => rfl }, by simp, by simp⟩

theorem Mixed.exists_balanced (h : Mixed origin here) (hl : Loaded origin) :
    ∃ ledger, here.Balanced ledger := by
  induction h with
  | origin => exact ⟨_, hl.balanced⟩
  | give _ hi hk ih =>
    obtain ⟨_, hin⟩ := ih
    exact hin.give hi hk
  | amid _ ha ih =>
    obtain ⟨_, hin⟩ := ih
    obtain ⟨ledger', -, hafter⟩ := hin.amid ha
    exact ⟨ledger', hafter⟩
  | release _ ha ih =>
    obtain ⟨_, hin⟩ := ih
    exact hin.release ha

/-! ### Calls that are served -/

/-- How far a call is for the command that serves it, when such bounds of cycles had been published
before it was given. -/
inductive Serves (served : Command) (before : List Event) : Ledger → Prop
  | held {taken : Event} (hk : taken.kind = .command served) :
      Serves served before ⟨.holding taken, .waiting, before⟩
  | begun : Serves served before ⟨.running served, .waiting, .beginStep served :: before⟩
  | done {desk : Desk} {call : Call} {bounds : List Event} (interrupted : Bool)
      (hb : .endStep served interrupted :: .beginStep served :: before <:+ bounds)
      (hc : call = .ended served interrupted ∨ call = .answered (.ok (.flag !interrupted))) :
      Serves served before ⟨desk, call, bounds⟩
  /-- The dispatcher has crashed before the call is answered. -/
  | crashed {fault : Fault} {call : Call} {bounds : List Event}
      (hc : ∀ result, call = .answered result → result = .error fault) :
      Serves served before ⟨.crashed fault, call, bounds⟩

/-- No entry in the books comes between a call and the command that serves it. -/
theorem Serves.moves {served : Command} {before : List Event} {ledger' : Ledger}
    (h : Serves served before ledger) (hm : ledger.Moves ledger') :
    Serves served before ledger' := by
  cases h with
  | held hk =>
    -- the dispatcher can do nothing but begin the cycle of what it has taken
    cases hm with
    | begins hk' =>
      obtain rfl := EventKind.command.inj (hk'.symm.trans hk)
      exact .begun
    | fails => exact .crashed (by simp)
  | begun =>
    cases hm with
    | ends interrupted => exact .done interrupted (List.suffix_refl _) (.inl rfl)
    | breaks interrupted hc =>
      obtain rfl | rfl := hc
      · exact .crashed (by simp)
      · exact .crashed (by simp [Call.hear])
  | @done desk call bounds interrupted hb hc =>
    have hlonger (event : Event) :
        .endStep served interrupted :: .beginStep served :: before <:+ event :: bounds :=
      hb.trans (List.suffix_cons event bounds)
    -- it hears of no other cycle
    have hdeaf (command : Command) (interrupted' : Bool) :
        call.hear command interrupted' = call := by
      obtain rfl | rfl := hc <;> rfl
    cases hm with
    | takes => exact .done interrupted hb hc
    | begins => exact .done interrupted (hlonger _) hc
    | fails => exact .done interrupted (hlonger _) hc
    | ends =>
      rw [hdeaf]
      exact .done interrupted (hlonger _) hc
    | breaks _ hcall =>
      rw [hdeaf, or_self] at hcall
      exact .done interrupted (hlonger _) (hcall ▸ hc)
    | answers =>
      obtain heq | heq := hc
      · obtain ⟨rfl, rfl⟩ := Call.ended.inj heq
        exact .done _ hb (.inr rfl)
      · cases heq
    | gives => exact .crashed fun result heq => (Call.answered.inj heq).symm
  | crashed hc =>
    cases hm with
    | answers ha => exact absurd rfl (ha _)
    | gives => exact .crashed fun result heq => (Call.answered.inj heq).symm

theorem Serves.run {served : Command} {before : List Event} {ledger' : Ledger}
    (h : Serves served before ledger) (hm : Relation.ReflTransGen Ledger.Moves ledger ledger') :
    Serves served before ledger' := by
  induction hm with
  | refl => exact h
  | tail _ hmove ih => exact ih.moves hmove

/-- A call is served by a command: whenever it gets an answer, it has had a cycle of that command,
the first one that has begun since it was given, and is told whether that was interrupted; or the
dispatcher has crashed. -/
def ServedBy (asked : Session) (served : Command) : Prop :=
  ∀ later, Amid asked later → ∀ result, later.caller = .answered result →
    (∃ fault, later.dispatcher = .crashed fault ∧ result = .error fault) ∨
      ∃ interrupted since, TraceDebugger.bounds later.chronicle
          = TraceDebugger.bounds asked.chronicle
            ++ .beginStep served :: .endStep served interrupted :: since ∧
        result = .ok (.flag !interrupted)

theorem bounds_chronicle (h : session.Keeps [] ledger) :
    TraceDebugger.bounds session.chronicle = ledger.bounds.reverse := by
  rw [chronicle, TraceDebugger.bounds, List.filter_reverse]
  exact congrArg List.reverse h.bounds

theorem Balanced.servedBy {asked : Session} {served : Command} (h : asked.Balanced ledger)
    (hs : Serves served ledger.bounds ledger) : asked.ServedBy served := by
  intro later ha result hanswered
  obtain ⟨⟨desk, call, bounds⟩, hmoves, hlater⟩ := h.amid ha
  have hcall : call = .answered result := hlater.keeps.calls.answered_iff.mp hanswered
  rw [bounds_chronicle hlater.keeps, bounds_chronicle h.keeps]
  cases hs.run hmoves with
  | held | begun => cases hcall
  | done interrupted hb hc =>
    obtain rfl | rfl := hc
    · cases hcall
    · obtain rfl := Call.answered.inj hcall
      obtain ⟨since, rfl⟩ := hb
      exact .inr ⟨interrupted, since.reverse, by simp, rfl⟩
  | @crashed fault _ _ hc =>
    exact .inl ⟨fault, hlater.keeps.tends.crashed_iff.mpr rfl, hc result hcall⟩

theorem mem_commandsOf {turns : List Turn} : event ∈ commandsOf turns ↔ .command event ∈ turns := by
  rw [commandsOf, List.mem_filterMap]
  constructor
  · rintro ⟨turn, ht, heq⟩
    cases turn with
    | command event' => exact Option.some.inj heq ▸ ht
    | _ => cases heq
  · exact fun ht => ⟨_, ht, rfl⟩

/-- A command that the dispatcher has taken waits for its turn. -/
theorem Keeps.commandsOf_eq (h : session.Keeps [] ⟨.holding event, call, bounds⟩) :
    commandsOf session.turns = [event] ∧ ∃ command, event.kind = .command command := by
  have htends : Tends session (.holding event) := h.tends
  cases htends with
  | told _ _ hk hn =>
    rw [h.notices] at hn
    cases hn
  | holding _ hk ht => exact ⟨ht, _, hk⟩

theorem Keeps.commandsOf_nil (h : session.Keeps [] ⟨.free, call, bounds⟩) :
    commandsOf session.turns = [] := by
  have htends : Tends session .free := h.tends
  cases htends with
  | free _ _ ht => exact ht

/-- Nothing is in the way of a call while nobody else waits and no cycle runs. -/
theorem Keeps.give_eq_issue (h : session.Keeps [] ⟨desk, .nobody, bounds⟩) (hd : desk.Alive)
    (hn : session.ownCycle = none) (command : Command) (event : Event) :
    session.give command event = session.issue command event := by
  have hcalls : Calls session desk .nobody := h.calls
  cases hcalls with
  | nobody _ hr =>
    rw [Session.give, h.refusal?_eq hd command, hr, hn]
    rfl

/-- **Which command serves a call.**  Whatever has been asked of a session since it loaded a trace,
by a caller and from outside, and as long as its dispatcher has not crashed:

A call is refused, and told of the command in the way, just while another call waits or a cycle
runs.

Any other call whose command can be published is served by one command.  If the dispatcher has taken
a command that it has yet to begin, that one serves the call, whatever the call asks for.  Otherwise
it is the call's own command, unless a listener publishes one together with it. -/
theorem calls_served (hl : Loaded origin) (hm : Mixed origin here)
    (hc : ∀ fault, here.dispatcher ≠ .crashed fault) (hk : event.kind = .command command) :
    here.refusal? command
      = (here.running.or (here.ownCycle.map (·.command))).map
          (fun running => .commandInProgress command.name running.name) ∧
    (here.caller = .idle → here.ownCycle = none →
      (∃ fault, (here.give command event).caller = .answered (.error fault)) ∨
      ∃ taken served, taken.kind = .command served ∧
        commandsOf (here.give command event).turns = [taken] ∧
        (∀ earlier, .command earlier ∈ here.turns → taken = earlier) ∧
        ((∀ earlier, .command earlier ∉ here.turns) →
          taken = event ∨ ∃ wire ∈ here.store.tripwires, taken = wire.event) ∧
        (here.give command event).ServedBy served) := by
  obtain ⟨ledger, hin⟩ := hm.exists_balanced hl
  have halive : ledger.desk.Alive :=
    fun fault hcrashed => hc fault (hin.keeps.tends.crashed_iff.mpr hcrashed)
  have hrefusal := hin.keeps.refusal?_eq halive command
  refine ⟨hrefusal, fun hi hnone => ?_⟩
  have hcall := hin.call_eq hi
  obtain ⟨desk, call, bounds⟩ := ledger
  obtain rfl : call = .nobody := hcall
  have hgive := hin.keeps.give_eq_issue halive hnone command event
  have hrest : desk.running? = none := by
    rw [← hin.keeps.cycle, hnone]
    rfl
  obtain ⟨desk', hdesk, ⟨fault, hanswered⟩ | ⟨hfree, hwaiting⟩⟩ := hin.keeps.issue hk
  · rw [hgive]
    exact .inl ⟨fault, hanswered.calls.answered_iff.mpr rfl⟩
  · rw [hgive]
    obtain rfl | ⟨taken, served, rfl, hbrings, htaken, rfl⟩ := hdesk
    · -- the dispatcher has taken a command before
      cases desk' with
      | free => exact absurd rfl hfree
      | busy => exact absurd rfl hin.settled
      | running => cases hrest
      | crashed fault => exact absurd rfl (halive fault)
      | holding taken =>
        obtain ⟨hcommands, served, htaken⟩ := hin.keeps.commandsOf_eq
        have hasked : (here.issue command event).Balanced _ := ⟨hwaiting, by simp, by simp⟩
        refine .inr ⟨taken, served, htaken, hwaiting.commandsOf_eq.1, fun earlier he => ?_,
          fun hn => ?_, hasked.servedBy (.held htaken)⟩
        · have hmem := mem_commandsOf.mpr he
          rw [hcommands] at hmem
          exact (List.mem_singleton.mp hmem).symm
        · exact absurd (mem_commandsOf.mp (hcommands ▸ List.mem_cons_self)) (hn taken)
    · have hasked : (here.issue command event).Balanced _ := ⟨hwaiting, by simp, by simp⟩
      refine .inr ⟨taken, served, htaken, hwaiting.commandsOf_eq.1, fun earlier he => ?_,
        fun _ => hbrings.2 (command_mem_commands htaken), hasked.servedBy (.held htaken)⟩
      have hmem := mem_commandsOf.mpr he
      rw [hin.keeps.commandsOf_nil] at hmem
      cases hmem

/-- The brief session when a command to step out has been published from outside. -/
def overtaken : Session := (brief.put Order.stepOut.event).1

theorem mixed_overtaken : Mixed brief overtaken :=
  .amid .origin (.put .here (unbound_of_command Order.stepOut.event_kind))

theorem idle_overtaken : overtaken.caller = .idle := rfl

/-- A call to advance is served by its own command, unless the command to step out has been taken
before: then that one serves it. -/
theorem overtaken_calls_served :
    Loaded brief ∧ Mixed brief overtaken ∧
      (∀ session ∈ [brief, overtaken], (∀ fault, session.dispatcher ≠ .crashed fault) ∧
        session.caller = .idle ∧ session.ownCycle = none ∧ session.refusal? .advance = none) ∧
      Order.advance.event.kind = .command .advance ∧
      (brief.give .advance Order.advance.event).ServedBy .advance ∧
      (overtaken.give .advance Order.advance.event).ServedBy .stepOut := by
  have hkind : Order.advance.event.kind = .command .advance := Order.advance.event_kind
  have hwaiting : brief.dispatcher = .awaitingCommand 1 := rfl
  have hworking : overtaken.dispatcher = .working := rfl
  have hrests : brief.ownCycle = none := rfl
  have hrests' : overtaken.ownCycle = none := rfl
  have hfree (fault : Fault) : brief.dispatcher ≠ .crashed fault := by
    rw [hwaiting]
    simp
  have halive (fault : Fault) : overtaken.dispatcher ≠ .crashed fault := by
    rw [hworking]
    simp
  obtain ⟨hrefusal, hserved⟩ := calls_served loaded_brief .origin hfree hkind
  obtain ⟨hrefusal', hserved'⟩ := calls_served loaded_brief mixed_overtaken halive hkind
  refine ⟨loaded_brief, mixed_overtaken, fun session hs => ?_, hkind, ?_, ?_⟩
  · rcases List.mem_cons.mp hs with rfl | hs
    · exact ⟨hfree, loaded_brief.idle, hrests, hrefusal⟩
    · obtain rfl := List.mem_singleton.mp hs
      exact ⟨halive, idle_overtaken, hrests', hrefusal'⟩
  · -- the session has not been given another command, so the call is served by its own
    have hwaits : (brief.give .advance Order.advance.event).answer?.isSome = false := by
      decide +kernel
    have hturns : brief.turns.length = 0 := by decide +kernel
    have hwires : brief.store.tripwires.length = 0 := by decide +kernel
    have hnone (earlier : Event) : Turn.command earlier ∉ brief.turns := by
      rw [List.length_eq_zero_iff.mp hturns]
      simp
    obtain ⟨fault, hfailed⟩ | ⟨taken, served, hk, -, -, hown, hby⟩ :=
      hserved loaded_brief.idle hrests
    · rw [answer?, hfailed] at hwaits
      cases hwaits
    · obtain rfl | ⟨wire, hwire, -⟩ := hown hnone
      · obtain rfl := EventKind.command.inj hk
        exact hby
      · rw [List.length_eq_zero_iff.mp hwires] at hwire
        cases hwire
  · -- here the command to step out has been taken before
    have hwaits : (overtaken.give .advance Order.advance.event).answer?.isSome = false := by
      decide +kernel
    have htaken : Turn.command Order.stepOut.event ∈ overtaken.turns :=
      mem_commandsOf.mp (List.mem_singleton.mpr rfl)
    obtain ⟨fault, hfailed⟩ | ⟨taken, served, hk, -, hearlier, -, hby⟩ :=
      hserved' idle_overtaken hrests'
    · rw [answer?, hfailed] at hwaits
      cases hwaits
    · obtain rfl := hearlier _ htaken
      obtain rfl := EventKind.command.inj hk
      exact hby

/-- What becomes of that call. -/
def overtakenLater : Session := runFor 12 (overtaken.give .advance Order.advance.event)

/-- The call is told that it ran to its end, and no cycle of its command has begun. -/
theorem overtaken_by_stepOut :
    Loaded brief ∧ Mixed brief overtaken ∧ overtaken.caller = .idle ∧
      Amid (overtaken.give .advance Order.advance.event) overtakenLater ∧
      overtakenLater.caller = .answered (.ok (.flag true)) ∧
      (TraceDebugger.bounds overtakenLater.chronicle).map (·.payload.command)
        = [some Command.stepOut.name, some Command.stepOut.name] := by
  obtain ⟨count, hsteps⟩ := exists_steps_runFor 12 (overtaken.give .advance Order.advance.event)
  have htrue : overtakenLater.answer?.bind Except.toOption = some (.flag true) := by
    decide +kernel
  have hmarks : (TraceDebugger.bounds overtakenLater.chronicle).map (·.payload.command)
      = [some Command.stepOut.name, some Command.stepOut.name] := by decide +kernel
  refine ⟨loaded_brief, mixed_overtaken, idle_overtaken, Amid.here.steps hsteps, ?_, hmarks⟩
  rw [answer?] at htrue
  -- the reply is read off the evaluated answer, since a state of the caller cannot be decided
  cases hcaller : overtakenLater.caller with
  | answered result =>
    rw [hcaller] at htrue
    cases result with
    | error fault => cases htrue
    | ok reply =>
      obtain rfl : reply = .flag true := Option.some.inj htrue
      rfl
  | _ =>
    rw [hcaller] at htrue
    cases htrue

end Session

end TraceDebugger
