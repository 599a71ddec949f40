import SlashCommands.Draft
import SlashCommands.Proofs.Gates
import SlashCommands.Proofs.Reachable

/-!
# Rejections

An invocation that a gate is shut for is answered with one message and is over
(`Delivery.TurnedAway`): no handler is started for it, then or later, and no notice follows. One
that all gates are open for is never rejected (`Delivery.Unrejected`). Both hold whatever else runs
on the machine (`Machine.dispatch_gated`).
-/

namespace SlashCommands

variable {ν : Type}

namespace Delivery

variable {router : Router} {clock : Nat} {d e : Delivery ν}

/-! ## Where a gate is shut -/

/-- The one message is the text of the gate, for the user alone, and nothing is left to do. -/
structure TurnedAway (messages : Messages) (g : Gate) (d : Delivery ν) : Prop where
  plan : ∃ command, d.plan = .reject command g (messages.rejection g)
  outcome : d.outcome = some (.rejected g)
  sent : d.exchange.sent = [.reply ⟨messages.rejection g, true⟩]
  stage : d.stage = .settled

/-- Whether a handler is going to run, or something is at work already. -/
def hasHandler (d : Delivery ν) : Bool :=
  match d.plan, d.stage with
  | .handle .., _ => true
  | _, .running .. => true
  | _, _ => false

/-- What is settled by its first turn stays as that turn leaves it. -/
theorem arrived_or_of_evolves {P : Delivery ν → Prop} (hd : d.stage = .arrived)
    (hfirst : ∀ clock, P (d.pollEvent router clock).1)
    (hsettled : ∀ e, P e → e.stage = .settled) (h : d.Evolves router e) : e = d ∨ P e := by
  refine h.keeps (P := fun e => e = d ∨ P e) (fun e clock history role he => ?_) (.inl rfl)
  rcases he with rfl | he
  · cases role with
    | event => exact .inr (hfirst clock)
    | handler => exact .inl (by simp [poll, pollHandler, hd])
    | notice => exact .inl (by simp [poll, pollNotice, hd])
  · rw [poll_of_settled (hsettled e he)]
    exact .inr he

/-- An invocation that a gate is shut for, at its first turn. -/
def shut (router : Router) (i : Invocation) (refused : List Verb) (command : String) (g : Gate)
    (awaited : Bool) : Delivery ν :=
  new (.invocation i) refused (.reject command g (router.messages.rejection g)) awaited

section Shut

variable {i : Invocation} {refused : List Verb} {command : String} {g : Gate} {awaited : Bool}

/-- The first turn of its own task ends it; nothing is left to run, now or later. -/
theorem poll_shut (history : List ν) :
    ∃ e logs, (shut router i refused command g awaited).poll router clock history .event
        = (e, { logs })
      ∧ e.TurnedAway router.messages g :=
  ⟨_, _, rfl, ⟨_, rfl⟩, rfl, rfl, rfl⟩

theorem evolves_shut (h : (shut router i refused command g awaited).Evolves router e) :
    e = shut router i refused command g awaited ∨ e.TurnedAway router.messages g :=
  arrived_or_of_evolves rfl (fun _ => ⟨⟨_, rfl⟩, rfl, rfl, rfl⟩) (fun _ he => he.stage) h

theorem hasHandler_of_evolves_shut
    (h : (shut router i refused command g awaited).Evolves router e) : e.hasHandler = false := by
  rcases evolves_shut h with rfl | he
  · rfl
  · obtain ⟨command, hp⟩ := he.plan
    rw [hasHandler, hp, he.stage]

end Shut

/-! ## Where all gates are open -/

/-- Neither rejected nor going to be. -/
structure Unrejected (d : Delivery ν) : Prop where
  plan : ∀ command gate text, d.plan ≠ .reject command gate text
  outcome : ∀ gate, d.outcome ≠ some (.rejected gate)

namespace Unrejected

theorem settle (h : d.Unrejected) {o : Outcome} (ho : ∀ gate, o ≠ .rejected gate) :
    (d.settle o).Unrejected :=
  ⟨h.plan, fun gate he => ho gate (Option.some.inj he)⟩

theorem conclude (h : d.Unrejected) (ending : Ending) : (d.conclude ending).1.Unrejected := by
  rw [Delivery.conclude]
  split
  · rcases ending with suggestions | failure
    · exact h.settle (by simp)
    · exact ⟨h.plan, by simp [concludeAction]⟩
  · rcases ending with suggestions | failure
    · exact ⟨h.plan, by simp [concludeCompletion, Delivery.settle]⟩
    · exact ⟨h.plan, by simp [concludeCompletion, Delivery.settle]⟩
  · exact h

theorem start (h : d.Unrejected) (program : Program ν) :
    (d.start router clock program).1.Unrejected := by
  rw [Delivery.start]
  split
  · exact ⟨h.plan, h.outcome⟩
  · exact h.conclude _
  · exact ⟨h.plan, h.outcome⟩

theorem receive (h : d.Unrejected) : (d.receive router clock).1.Unrejected := by
  rw [Delivery.receive]
  split
  · exact h.settle (by simp)
  · exact h.settle (by simp)
  · exact h.settle (by simp)
  · exact absurd ‹_› (h.plan _ _ _)
  · exact h.start _
  · exact h.start _

theorem pollEvent (h : d.Unrejected) : (d.pollEvent router clock).1.Unrejected := by
  rw [Delivery.pollEvent]
  split
  · exact h.receive
  · split_ifs
    · exact h.conclude _
    · exact h
  · exact h.conclude _
  · exact h

theorem pollHandler (h : d.Unrejected) (history : List ν) :
    (d.pollHandler clock history).1.Unrejected := by
  rw [Delivery.pollHandler]
  split
  · dsimp only
    split <;> exact ⟨h.plan, h.outcome⟩
  · exact h

theorem pollNotice (h : d.Unrejected) : (d.pollNotice router clock).1.Unrejected := by
  rw [Delivery.pollNotice]
  split
  · split_ifs <;> exact ⟨h.plan, h.outcome⟩
  · exact h

theorem poll (h : d.Unrejected) (history : List ν) (role : Role) :
    (d.poll router clock history role).1.Unrejected := by
  cases role with
  | event => exact h.pollEvent
  | handler => exact h.pollHandler history
  | notice => exact h.pollNotice

theorem evolves (h : d.Unrejected) (he : d.Evolves router e) : e.Unrejected :=
  he.keeps (fun _ _ history role h => h.poll history role) h

end Unrejected

end Delivery

namespace Machine

variable {m n : Machine ν}

/-- An invocation as it reaches the router. -/
def arrival (m : Machine ν) (i : Invocation) (refused : List Verb) (awaited : Bool) : Delivery ν :=
  .new (.invocation i) refused (m.router.plan m.registry (.invocation i)) awaited

/-- One delivery came to a machine, and nothing that has yet to run. -/
structure Adds (m n : Machine ν) (d : Delivery ν) : Prop where
  deliveries : n.deliveries = m.deliveries ++ [d]
  router : n.router = m.router
  clock : n.clock = m.clock
  queue : n.queue = m.queue
  timers : n.timers.Sublist m.timers
  notes : n.notes = m.notes

theorem Adds.turn {d e : Delivery ν} (h : m.Adds n d) {role : Role} {logs : List LogEntry}
    (hp : (d.planned n.router n.registry).poll n.router n.clock n.notes role = (e, { logs })) :
    m.Adds (n.turn ⟨m.deliveries.length, role⟩) e := by
  have hd : n.delivery? m.deliveries.length = some (d.planned n.router n.registry) :=
    delivery?_of_getElem? (by rw [h.deliveries, List.getElem?_concat_length])
  simp only [Machine.turn, hd, hp, List.map_nil, List.append_nil]
  refine ⟨?_, h.router, h.clock, h.queue, List.filter_sublist.trans h.timers, h.notes⟩
  simp [h.deliveries]

theorem runUntil_of_goal {goal : Machine ν → Bool} (h : goal m = true) : m.runUntil goal = m := by
  rw [runUntil, runWith, if_pos h]

/-- Whoever dispatches an invocation leads it on from its first turn. -/
theorem dispatch_evolves (m : Machine ν) (i : Invocation) (refused : List Verb) :
    ∃ d, (m.dispatch (.invocation i) refused).deliveries[m.deliveries.length]? = some d
      ∧ (m.arrival i refused true).Evolves m.router d := by
  have hrouter : (m.enter (.invocation i) (.without refused)).router = m.router :=
    router_turn _ _
  obtain ⟨d, hd, hev, -⟩ := (m.reaches_enter_dispatchOver (.invocation i)
    (.without refused)).extends.started (m.deliveries_enter _ _) (Delivery.pollEvent_started _)
  rw [hrouter] at hev
  exact ⟨d, hd, (Delivery.Evolves.refl.turn m.clock m.notes .event).trans hev⟩

/-- A delivery that its first turn settles is all that a dispatch adds. -/
theorem adds_dispatchOver {event : Event} {transport : Transport} {e : Delivery ν}
    {logs : List LogEntry}
    (hp : (Delivery.arriving event transport (m.router.plan m.registry event) true).poll
      m.router m.clock m.notes .event = (e, { logs }))
    (he : e.stage = .settled) : m.Adds (m.dispatchOver event transport) e := by
  have htaken : m.Adds (m.take event transport) (.posted event transport true) :=
    ⟨rfl, rfl, rfl, rfl, .refl _, rfl⟩
  have hfirst : m.Adds (m.enter event transport) e := htaken.turn hp
  have hstarted : e.stage ≠ .arrived := by simp [he]
  have hsame : (e.planned (m.enter event transport).router
      (m.enter event transport).registry).poll (m.enter event transport).router
        (m.enter event transport).clock (m.enter event transport).notes .event = (e, {}) := by
    rw [Delivery.planned_of_started hstarted, Delivery.poll_of_settled he]
  have hgoal : (m.enter event transport).runUntil (due m.deliveries.length)
      = m.enter event transport :=
    runUntil_of_goal (by simp [due, hfirst.deliveries, Delivery.isDue, he])
  rw [dispatchOver, hgoal]
  exact hfirst.turn hsame

theorem dispatch_turnedAway {i : Invocation} {refused : List Verb} {command : String} {g : Gate}
    (h : m.arrival i refused true = .shut m.router i refused command g true) :
    ∃ d, m.Adds (m.dispatch (.invocation i) refused) d
      ∧ d.TurnedAway m.router.messages g := by
  obtain ⟨d, logs, hp, hd⟩ : ∃ d logs,
      (m.arrival i refused true).poll m.router m.clock m.notes .event = (d, { logs })
        ∧ d.TurnedAway m.router.messages g := by
    rw [h]
    exact Delivery.poll_shut m.notes
  exact ⟨d, adds_dispatchOver hp hd.stage, hd⟩

theorem arrival_of_firstShut {i : Invocation} {s : Command ν} {g : Gate}
    (hs : m.registry.get? i.command = some s) (hg : s.FirstShut i g) (refused : List Verb)
    (awaited : Bool) :
    m.arrival i refused awaited = .shut m.router i refused s.name g awaited := by
  rw [arrival, Router.plan_of_firstShut hs hg, Delivery.shut]

theorem arrival_unrejected {i : Invocation} {s : Command ν}
    (hs : m.registry.get? i.command = some s) (ho : ∀ g, s.Open i g) (refused : List Verb)
    (awaited : Bool) : (m.arrival i refused awaited).Unrejected := by
  refine ⟨fun command gate text hp => ?_, by simp [arrival, Delivery.new]⟩
  have ha : m.router.plan m.registry (.invocation i) = .reject command gate text := hp
  rcases Router.plan_of_open hs ho with ⟨action, hh⟩ | hu
  · rw [hh] at ha
    cases ha
  · rw [hu] at ha
    cases ha

/-- A handler is reached only through open gates; a shut one ends the dispatch with its one message,
the first shut one if there are several; and through open gates nothing is rejected. -/
theorem dispatch_gated {i : Invocation} {s : Command ν}
    (hs : m.registry.get? i.command = some s) (refused : List Verb) :
    (∀ awaited d, (m.arrival i refused awaited).Evolves m.router d → d.hasHandler = true →
        ∀ g, s.Open i g)
      ∧ ((∃ g, ¬ s.Open i g) → ∃ g, s.FirstShut i g
        ∧ (∃ d, m.Adds (m.dispatch (.invocation i) refused) d
          ∧ d.TurnedAway m.router.messages g)
        ∧ ∀ awaited d, (m.arrival i refused awaited).Evolves m.router d →
          d = m.arrival i refused awaited ∨ d.TurnedAway m.router.messages g)
      ∧ ((∀ g, s.Open i g) →
        ∃ d, (m.dispatch (.invocation i) refused).deliveries[m.deliveries.length]? = some d
          ∧ (m.arrival i refused true).Evolves m.router d
          ∧ ∀ e, d.Evolves m.router e → ∀ g, e.outcome ≠ some (.rejected g)) := by
  refine ⟨fun awaited d hd hr => ?_, fun hex => ?_, fun ho => ?_⟩
  · by_contra hno
    obtain ⟨g, hg⟩ := Spec.exists_firstShut (not_forall.1 hno)
    rw [arrival_of_firstShut hs hg] at hd
    rw [Delivery.hasHandler_of_evolves_shut hd] at hr
    cases hr
  · obtain ⟨g, hg⟩ := Spec.exists_firstShut hex
    refine ⟨g, hg, dispatch_turnedAway (arrival_of_firstShut hs hg refused true), ?_⟩
    intro awaited d hd
    rw [arrival_of_firstShut hs hg] at hd ⊢
    exact Delivery.evolves_shut hd
  · obtain ⟨d, hd, he⟩ := m.dispatch_evolves i refused
    have hu := (arrival_unrejected hs ho refused true).evolves he
    exact ⟨d, hd, he, fun e hde => (hu.evolves hde).outcome⟩

/-- A command for one channel only. -/
def pingThere : Command Unit :=
  { (Draft.new "ping" "").toSpec [] (.single fun _ => .finished) with
    channels := SortedSet.ofList ["7"] }

def pingMachine : Machine Unit :=
  .new (.ofSettings .default) (Registry.empty.append pingThere)

theorem pingMachine_dispatch_gated :
    ∃ d, pingMachine.Adds (pingMachine.dispatch (.invocation (.new "ping")) [.reply]) d
      ∧ d.TurnedAway Messages.default .channel := by
  have hs : pingMachine.registry.get? (Invocation.new "ping").command = some pingThere :=
    (Registry.empty_indexed.append rfl).get?_eq_some_iff.2 ⟨List.mem_singleton.2 rfl, rfl⟩
  have hshut : ¬ pingThere.Open (.new "ping") .channel := by
    rintro (h | ⟨c, hc, -⟩)
    · cases h
    · cases hc
  obtain ⟨g, hg, hd, -⟩ := (dispatch_gated hs [.reply]).2.1 ⟨.channel, hshut⟩
  cases g with
  | channel => exact hd
  | permissions => exact absurd (hg.2 .channel (by simp [Gate.before])) hshut
  | roles => exact absurd (hg.2 .channel (by simp [Gate.before])) hshut

end Machine

end SlashCommands
