import SlashCommands.Proofs.DeliveryStages

/-!
# Listening

A listener takes events from a channel, each into a delivery of its own, until the channel is closed
and empty. Then it waits in turn until every event has its outcome, until no failure is kept back,
and until no single registration is under way (`Listening.Step`). All the while the machine goes on
in any order (`Machine.Next`), and more events can be sent until the channel is closed.

Nothing can begin any more that was waited for (`Listening.Sound`), so all is done when the listener
is finished, and it can always finish. And no event has a part in the share of another, so each is
handled as if it were the only one (`Listening.events_undisturbed`).
-/

namespace SlashCommands

variable {ν : Type}

namespace Machine

variable {m n : Machine ν}

/-! ## Events on their way -/

/-- A delivery has gone its own way since its event arrived. -/
def Carries (m : Machine ν) (id : Nat) (event : Event) (transport : Transport) : Prop :=
  ∃ clock s, m.share? id = some s
    ∧ (Share.arrived clock event transport (m.router.plan m.registry event)).Steps m.router s

section Carries

variable {id : Nat} {event : Event} {transport : Transport}

theorem carries_postOver (hm : m.Sound) (event : Event) (transport : Transport) :
    (m.postOver event transport).Carries m.deliveries.length event transport :=
  ⟨m.clock, _, share?_postOver_self hm event transport, .refl⟩

theorem Carries.postOver (h : m.Carries id event transport) (hid : id < m.deliveries.length)
    (event' : Event) (transport' : Transport) :
    (m.postOver event' transport').Carries id event transport := by
  obtain ⟨clock, s, hs, hsteps⟩ := h
  exact ⟨clock, s, (share?_postOver_of_lt hid event' transport').trans hs, hsteps⟩

theorem Carries.next (h : m.Carries id event transport) (hm : m.Sound) (hn : m.Next n) :
    n.Carries id event transport := by
  obtain ⟨clock, s, hs, hsteps⟩ := h
  obtain ⟨t, ht, hst⟩ := hn.share hm hs
  refine ⟨clock, t, ht, ?_⟩
  rw [hn.evolves.router, hn.evolves.registry]
  rcases hst with rfl | hst
  · exact hsteps
  · exact hsteps.tail hst

end Carries

/-- A delivery is at an end that its event comes to by some order of its own tasks if there is
nothing else. By the order of the machine it comes to the same outcome and messages, unless the
handler wakes up at the very moment its time is up: then who has the first turn makes a
difference. -/
structure HandledAlone (router : Router) (registry : CommandRegistry ν) (event : Event)
    (transport : Transport) (d : Delivery ν) : Prop where
  settled : d.stage = .settled
  outcome : d.outcome.isSome = true
  possible : ∃ clock l, ((vacant router registry clock).postOver event transport).Interleaves l
    ∧ l.deliveries = [d]
  same : (router.plan registry event).Untied router →
    ∃ e, ((Machine.new router registry).dispatchOver event transport).flushNotices.deliveries[0]?
      = some e ∧ e.stage = .settled ∧ e.outcome = d.outcome ∧ e.exchange = d.exchange

theorem Carries.handledAlone {id : Nat} {event : Event} {transport : Transport} {d : Delivery ν}
    (h : m.Carries id event transport) (hp : (m.router.plan m.registry event).Private)
    (hd : m.deliveries[id]? = some d) (ho : d.IsOver) (hs : d.stage = .settled) :
    HandledAlone m.router m.registry event transport d := by
  obtain ⟨clock, s, hshare, hsteps⟩ := h
  have hfound : m.delivery? id = some d := (delivery?_iff_of_started ho.started).2 hd
  obtain rfl : s.delivery = d := Option.some.inj ((share?_eq_some_iff.1 hshare).1.symm.trans hfound)
  refine ⟨hs, ho.outcome, ⟨clock, exists_alone hp hsteps ho.started⟩, fun hu => ?_⟩
  have hcourse : (Share.arrived clock event transport (m.router.plan m.registry event)).Course
      m.router ((m.router.plan m.registry event).promise m.router (.new event.subject transport))
      clock :=
    .arrived rfl rfl rfl rfl rfl hp hu rfl
  have hkept := (Share.Steps.course hsteps hcourse).kept hs
  obtain ⟨e, he, hes, hpromise⟩ := dispatchOver_promise (m := .new m.router m.registry)
    ⟨_, _, .refl⟩ hp hu transport
  have hsame := Prod.mk.inj (hpromise.trans hkept.symm)
  exact ⟨e, he, hes, hsame.1, hsame.2⟩

end Machine

/-! ## The listener -/

/-- What a listener waits for: more events, then what `Machine.settle`, `Machine.flushNotices` and
`Machine.flushAdditions` wait for. -/
inductive Listening.Phase
  | hearing
  | settling
  | flushing
  | adding
  | finished
deriving DecidableEq

/-- A machine that hears events from a channel until that is closed, and then winds up. -/
structure Listening (ν : Type) where
  machine : Machine ν
  /-- What was sent and has yet to be heard. -/
  channel : List (Event × Transport)
  closed : Bool
  phase : Listening.Phase
  /-- All that was ever sent. -/
  sent : List (Event × Transport)

namespace Listening

/-- How many phases lie behind. -/
def Phase.rank : Phase → Nat
  | hearing => 0
  | settling => 1
  | flushing => 2
  | adding => 3
  | finished => 4

/-- A listening that has heard nothing. -/
def start (m : Machine ν) : Listening ν :=
  ⟨m, [], false, .hearing, []⟩

/-- One thing that may happen while a program listens; nobody seals commands meanwhile. -/
inductive Step (l : Listening ν) : Listening ν → Prop
  | send (e : Event × Transport) (h : l.closed = false) :
    Step l { l with channel := l.channel ++ [e], sent := l.sent ++ [e] }
  | close : Step l { l with closed := true }
  | hear {e : Event × Transport} {channel : List (Event × Transport)} (hp : l.phase = .hearing)
    (h : l.channel = e :: channel) :
    Step l { l with machine := l.machine.postOver e.1 e.2, channel }
  /-- Some task has its turn, or the time passes. -/
  | work {n : Machine ν} (h : l.machine.Next n) : Step l { l with machine := n }
  | heard (hp : l.phase = .hearing) (hclosed : l.closed = true) (h : l.channel = []) :
    Step l { l with phase := .settling }
  | settled (hp : l.phase = .settling) (h : ∀ d ∈ l.machine.deliveries, d.outcome.isSome = true) :
    Step l { l with phase := .flushing }
  | flushed (hp : l.phase = .flushing) (h : ∀ d ∈ l.machine.deliveries, d.isNotifying = false) :
    Step l { l with phase := .adding }
  | added (hp : l.phase = .adding) (h : l.machine.hasAddition = false) :
    Step l { l with phase := .finished }

/-- What may become of a listening. -/
abbrev Reaches : Listening ν → Listening ν → Prop :=
  Relation.ReflTransGen Step

variable {m n : Machine ν} {l l' : Listening ν}

/-! ### What was waited for -/

/-- What is true of a listener that began on a machine. -/
structure Sound (m : Machine ν) (l : Listening ν) : Prop where
  machine : l.machine.Sound
  router : l.machine.router = m.router
  registry : l.machine.registry = m.registry
  unattended : ∀ d ∈ l.machine.deliveries, d.Unattended
  carried : ∃ heard, l.sent = heard ++ l.channel
    ∧ l.machine.deliveries.length = m.deliveries.length + heard.length
    ∧ ∀ k event transport, heard[k]? = some (event, transport) →
      l.machine.Carries (m.deliveries.length + k) event transport
  heard : 1 ≤ l.phase.rank → l.closed = true ∧ l.channel = []
  concluded : 2 ≤ l.phase.rank → ∀ d ∈ l.machine.deliveries, d.IsOver
  settled : 3 ≤ l.phase.rank → ∀ d ∈ l.machine.deliveries, d.stage = .settled
  added : 4 ≤ l.phase.rank → l.machine.hasAddition = false

theorem start_sound (hm : m.Reachable) (ho : ∀ d ∈ m.deliveries, d.outcome.isSome = true) :
    (start m).Sound m where
  machine := hm.sound
  router := rfl
  registry := rfl
  unattended := fun d hd =>
    have hregular := hm.regular d hd
    ⟨hregular, .inr (hregular.over_of_outcome (ho d hd))⟩
  carried := ⟨[], rfl, rfl, fun k event transport hk => by simp at hk⟩
  heard := fun h => absurd h (by simp [start, Phase.rank])
  concluded := fun h => absurd h (by simp [start, Phase.rank])
  settled := fun h => absurd h (by simp [start, Phase.rank])
  added := fun h => absurd h (by simp [start, Phase.rank])

namespace Sound

theorem send (h : l.Sound m) (e : Event × Transport) (hc : l.closed = false) :
    Sound m { l with channel := l.channel ++ [e], sent := l.sent ++ [e] } := by
  obtain ⟨heard, hsent, hlen, hcarries⟩ := h.carried
  refine ⟨h.machine, h.router, h.registry, h.unattended, ⟨heard, ?_, hlen, hcarries⟩,
    fun hr => ?_, h.concluded, h.settled, h.added⟩
  · simp [hsent]
  · simp [(h.heard hr).1] at hc

theorem hear (h : l.Sound m) {e : Event × Transport} {channel : List (Event × Transport)}
    (hp : l.phase = .hearing) (hc : l.channel = e :: channel) :
    Sound m { l with machine := l.machine.postOver e.1 e.2, channel } := by
  have hrank : ∀ {k : Nat}, k + 1 ≤ l.phase.rank → False := fun hk => by
    rw [hp, Phase.rank] at hk
    exact Nat.not_succ_le_zero _ hk
  obtain ⟨heard, hsent, hlen, hcarries⟩ := h.carried
  refine ⟨h.machine.postOver e.1 e.2, h.router, h.registry, fun d hd => ?_,
    ⟨heard ++ [e], ?_, ?_, fun k event transport hk => ?_⟩, fun hr => (hrank hr).elim,
    fun hr => (hrank hr).elim, fun hr => (hrank hr).elim, fun hr => (hrank hr).elim⟩
  · rcases List.mem_append.1 hd with hd | hd
    · exact h.unattended d hd
    · rw [List.mem_singleton.1 hd]
      exact ⟨.arrived rfl rfl, .inl rfl⟩
  · simp [hsent, hc]
  · simp [Machine.postOver, hlen, Nat.add_assoc]
  · rcases Registry.getElem?_concat_eq_some_iff.1 hk with hk | ⟨rfl, rfl⟩
    · have hlt := (List.getElem?_eq_some_iff.1 hk).1
      exact (hcarries k event transport hk).postOver (by omega) e.1 e.2
    · rw [← hlen]
      exact Machine.carries_postOver h.machine _ _

theorem work (h : l.Sound m) (hn : l.machine.Next n) : Sound m { l with machine := n } := by
  have hev := hn.evolves
  obtain ⟨heard, hsent, hlen, hcarries⟩ := h.carried
  refine ⟨hn.sound h.machine, hev.router.trans h.router, hev.registry.trans h.registry,
    hev.forall_deliveries (fun _ _ history role hd => hd.poll history role)
      (fun _ hd => hd.planned _ _) h.unattended,
    ⟨heard, hsent, hev.length.trans hlen, fun k event transport hk => ?_⟩, h.heard,
    fun hr => ?_, fun hr => ?_, fun hr => hn.hasAddition (h.added hr)⟩
  · exact (hcarries k event transport hk).next h.machine hn
  · exact hev.forall_deliveries (fun _ clock history role hd => hd.poll _ clock history role)
      (fun _ hd => hd.planned _ _) (h.concluded hr)
  · refine hev.forall_deliveries (fun d clock history role hd => ?_)
      (fun _ hd => Delivery.planned_stage.trans hd) (h.settled hr)
    rw [Delivery.poll_of_settled hd]
    exact hd

/-- Nothing of what a listener waited for comes again. -/
theorem step (h : l.Sound m) (hs : l.Step l') : l'.Sound m := by
  cases hs with
  | send e hc => exact h.send e hc
  | close =>
    exact ⟨h.machine, h.router, h.registry, h.unattended, h.carried,
      fun hr => ⟨rfl, (h.heard hr).2⟩, h.concluded, h.settled, h.added⟩
  | hear hp hc => exact h.hear hp hc
  | work hn => exact h.work hn
  | heard hp hclosed hc =>
    exact { h with
      heard := fun _ => ⟨hclosed, hc⟩
      concluded := fun hr => absurd hr (by simp [Phase.rank])
      settled := fun hr => absurd hr (by simp [Phase.rank])
      added := fun hr => absurd hr (by simp [Phase.rank]) }
  | settled hp ho =>
    exact { h with
      heard := fun _ => h.heard (by simp [hp, Phase.rank])
      concluded := fun _ d hd => (h.unattended d hd).regular.over_of_outcome (ho d hd)
      settled := fun hr => absurd hr (by simp [Phase.rank])
      added := fun hr => absurd hr (by simp [Phase.rank]) }
  | flushed hp hq =>
    have hover := h.concluded (by simp [hp, Phase.rank])
    exact { h with
      heard := fun _ => h.heard (by simp [hp, Phase.rank])
      concluded := fun _ => hover
      settled := fun _ d hd => (hover d hd).settled_of_quiet (hq d hd)
      added := fun hr => absurd hr (by simp [Phase.rank]) }
  | added hp ha =>
    exact { h with
      heard := fun _ => h.heard (by simp [hp, Phase.rank])
      concluded := fun _ => h.concluded (by simp [hp, Phase.rank])
      settled := fun _ => h.settled (by simp [hp, Phase.rank])
      added := fun _ => ha }

theorem reaches (h : l.Sound m) (hr : l.Reaches l') : l'.Sound m := by
  induction hr with
  | refl => exact h
  | tail _ hs ih => exact ih.step hs

end Sound

/-! ### The way to the end -/

theorem reaches_work (h : l.machine.Interleaves n) : l.Reaches { l with machine := n } := by
  induction h with
  | refl => exact .refl
  | tail _ hn ih => exact ih.tail (.work hn)

theorem reaches_hear : ∀ (channel : List (Event × Transport)) {l : Listening ν},
    l.phase = .hearing → l.channel = channel → l.Reaches { l with
      machine := channel.foldl (fun m e => m.postOver e.1 e.2) l.machine
      channel := [] }
  | [], l, _, hc => by
    obtain ⟨machine, _, closed, phase, sent⟩ := l
    cases hc
    exact .refl
  | e :: channel, l, hp, hc => .head (.hear hp hc) (reaches_hear channel hp rfl)

theorem reaches_send : ∀ (events : List (Event × Transport)) {l : Listening ν},
    l.closed = false → l.Reaches { l with
      channel := l.channel ++ events
      sent := l.sent ++ events }
  | [], l, _ => by
    rw [List.append_nil, List.append_nil]
  | e :: events, l, hc => by
    have hrest := reaches_send events (l := { l with
      channel := l.channel ++ [e]
      sent := l.sent ++ [e] }) hc
    rw [List.append_assoc, List.append_assoc] at hrest
    exact .head (.send e hc) hrest

theorem finishes_of_adding (hp : l.phase = .adding) :
    l.Reaches { l with machine := l.machine.flushAdditions, phase := .finished } := by
  have hwork : l.Reaches { l with machine := l.machine.flushAdditions } :=
    reaches_work (Machine.interleaves_runUntil _ _)
  exact hwork.tail (.added hp l.machine.flushAdditions_hasAddition)

namespace Sound

theorem finishes_of_flushing (h : l.Sound m) (hp : l.phase = .flushing) :
    l.Reaches { l with
      machine := l.machine.flushNotices.flushAdditions
      phase := .finished } := by
  have hwork : l.Reaches { l with machine := l.machine.flushNotices } :=
    reaches_work (Machine.interleaves_runUntil _ _)
  have hstep : Step { l with machine := l.machine.flushNotices }
      { l with machine := l.machine.flushNotices, phase := .adding } :=
    .flushed hp fun d hd => by
      obtain ⟨id, hid⟩ := List.mem_iff_getElem?.1 hd
      exact h.machine.flushNotices_quiet hid
  have hflushed := hwork.tail hstep
  exact hflushed.trans (finishes_of_adding rfl)

theorem settle_over (h : l.Sound m) : ∀ d ∈ l.machine.settle.deliveries, d.IsOver := by
  intro d hd
  obtain ⟨id, hid⟩ := List.mem_iff_getElem?.1 hd
  have hunattended : ∀ d ∈ l.machine.settle.deliveries, d.Unattended :=
    (Machine.runUntil_evolves l.machine _).forall_deliveries
      (fun _ _ history role hd => hd.poll history role) (fun _ hd => hd.planned _ _) h.unattended
  rcases h.machine.settle_owes hid with ho | ho
  · exact (hunattended d hd).regular.over_of_outcome ho
  · exact (hunattended d hd).over_of_owes ho

theorem finishes_of_settling (h : l.Sound m) (hp : l.phase = .settling) :
    l.Reaches { l with
      machine := l.machine.settle.flushNotices.flushAdditions
      phase := .finished } := by
  have hwork : l.Reaches { l with machine := l.machine.settle } :=
    reaches_work (Machine.interleaves_runUntil _ _)
  have hsettled := hwork.tail (.settled hp fun d hd => (h.settle_over d hd).outcome)
  exact hsettled.trans ((h.reaches hsettled).finishes_of_flushing rfl)

/-- One way to the end is the machine's own. -/
theorem finishes_of_hearing (h : l.Sound m) (hp : l.phase = .hearing) :
    l.Reaches { l with
      machine := (l.channel.foldl (fun m e => m.postOver e.1 e.2)
        l.machine).settle.flushNotices.flushAdditions
      channel := []
      closed := true
      phase := .finished } := by
  have hclose : l.Reaches { l with closed := true } := .single .close
  have hhear : Reaches { l with closed := true } { l with
      machine := l.channel.foldl (fun m e => m.postOver e.1 e.2) l.machine
      channel := []
      closed := true } := reaches_hear l.channel hp rfl
  have hheard := (hclose.trans hhear).tail (.heard hp rfl rfl)
  exact hheard.trans ((h.reaches hheard).finishes_of_settling rfl)

theorem finishes (h : l.Sound m) :
    ∃ l', l.Reaches l' ∧ l'.phase = .finished ∧ l'.sent = l.sent := by
  cases hp : l.phase with
  | hearing => exact ⟨_, h.finishes_of_hearing hp, rfl, rfl⟩
  | settling => exact ⟨_, h.finishes_of_settling hp, rfl, rfl⟩
  | flushing => exact ⟨_, h.finishes_of_flushing hp, rfl, rfl⟩
  | adding => exact ⟨_, finishes_of_adding hp, rfl, rfl⟩
  | finished => exact ⟨l, .refl, hp, rfl⟩

end Sound

/-- A listener can always finish, and the way of the program itself is one of many. When it is
finished, all that was sent was heard once, nothing is under way any more, and each event whose
handler is private was handled as if it were the only one, whatever became of the others. -/
theorem events_undisturbed {m : Machine ν} (hm : m.Reachable)
    (ho : ∀ d ∈ m.deliveries, d.outcome.isSome = true) :
    (∀ l, (start m).Reaches l →
        ∃ l', l.Reaches l' ∧ l'.phase = .finished ∧ l'.sent = l.sent)
      ∧ (∀ events, ∃ l, (start m).Reaches l ∧ l.phase = .finished ∧ l.sent = events
        ∧ l.machine = (events.foldl (fun m e => m.postOver e.1 e.2)
          m).settle.flushNotices.flushAdditions)
      ∧ ∀ l, (start m).Reaches l → l.phase = .finished →
        l.closed = true ∧ l.channel = []
          ∧ l.machine.deliveries.length = m.deliveries.length + l.sent.length
          ∧ (∀ d ∈ l.machine.deliveries, d.stage = .settled ∧ d.outcome.isSome = true)
          ∧ l.machine.hasAddition = false
          ∧ ∀ k event transport, l.sent[k]? = some (event, transport) →
            (m.router.plan m.registry event).Private →
            ∃ d, l.machine.deliveries[m.deliveries.length + k]? = some d
              ∧ Machine.HandledAlone m.router m.registry event transport d := by
  have hstart := start_sound hm ho
  refine ⟨fun l hl => (hstart.reaches hl).finishes, fun events => ?_, fun l hl hf => ?_⟩
  · have hsend := reaches_send events (l := start m) rfl
    exact ⟨_, hsend.trans ((hstart.reaches hsend).finishes_of_hearing rfl), rfl, rfl, rfl⟩
  · have h := hstart.reaches hl
    have hrank : l.phase.rank = 4 := by rw [hf, Phase.rank]
    obtain ⟨hclosed, hchannel⟩ := h.heard (by omega)
    obtain ⟨heard, hsent, hlen, hcarries⟩ := h.carried
    rw [hchannel, List.append_nil] at hsent
    subst hsent
    refine ⟨hclosed, hchannel, hlen, fun d hd => ?_, h.added (by omega),
      fun k event transport hk hp => ?_⟩
    · exact ⟨h.settled (by omega) d hd, (h.concluded (by omega) d hd).outcome⟩
    · have hcarried := hcarries k event transport hk
      rw [← h.router, ← h.registry] at hp ⊢
      have hlt : m.deliveries.length + k < l.machine.deliveries.length := by
        have := (List.getElem?_eq_some_iff.1 hk).1
        omega
      have hmem := List.getElem_mem hlt
      refine ⟨_, List.getElem?_eq_getElem hlt, ?_⟩
      exact hcarried.handledAlone hp (List.getElem?_eq_getElem hlt) (h.concluded (by omega) _ hmem)
        (h.settled (by omega) _ hmem)

/-- One command whose handler panics after a deferral, one whose handler takes too long, and one
that replies. -/
def mixedMachine : Machine Unit :=
  .new { Router.ofSettings .default with noticeDelay := 2, timeLimit := some 5 }
    (((Registry.empty.append ((Draft.new "report" "").toSpec [] (.single fun _ =>
      ⟨[.attempt fun _ => .send (.defer true)], .failed (.panic none)⟩))).append
      ((Draft.new "wait" "").toSpec [] (.single fun _ => ⟨[.sleep 9], .done []⟩))).append
      ((Draft.new "ping" "").toSpec [] (.single fun _ => .reply "pong")))

def mixedEvents : List (Event × Transport) :=
  ["report", "wait", "ping"].map fun name => (.invocation (.new name), .without [])

theorem mixedMachine_events_undisturbed :
    ∃ l, (start mixedMachine).Reaches l ∧ l.phase = .finished
      ∧ (l.machine.deliveries.map fun d => (d.outcome, d.exchange.sent))
        = [(some .failed, [.defer true, .edit ⟨Messages.default.failure, true⟩]),
          (some .failed, [.reply ⟨Messages.default.failure, true⟩]),
          (some .completed, [.reply ⟨"pong", false⟩])]
      ∧ ∃ d, l.machine.deliveries[2]? = some d ∧ Machine.HandledAlone mixedMachine.router
        mixedMachine.registry (.invocation (.new "ping")) (.without []) d := by
  obtain ⟨-, hown, hfinished⟩ := events_undisturbed (m := mixedMachine) ⟨_, _, .refl⟩
    fun d hd => absurd hd List.not_mem_nil
  obtain ⟨l, hl, hf, hsent, hmachine⟩ := hown mixedEvents
  obtain ⟨-, -, -, -, -, halone⟩ := hfinished l hl hf
  have hprivate : (mixedMachine.router.plan mixedMachine.registry
      (.invocation (.new "ping"))).Private := by
    intro program hprogram
    cases hprogram
    simp [Program.reply, Act.Private]
  refine ⟨l, hl, hf, ?_, halone 2 _ _ (by rw [hsent]; rfl) hprivate⟩
  rw [hmachine]
  rfl

end Listening

end SlashCommands
