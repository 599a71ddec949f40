import SlashCommands.Proofs.DeliveryStages

/-!
# Dismissed events

An event that no program is run for and nobody is told of is over with its first turn, and nothing
is ever sent (`Machine.Dismisses`). If nobody waits for it, its first turn may be late; that it has
no program then is known before if its command is known, and otherwise if the command is not sealed
meanwhile (`Machine.dismisses_of_plan`).
-/

namespace SlashCommands

variable {ν : Type}

/-- How an event ends that no program is run for and nobody is told of. -/
def Plan.dismissal? : Plan ν → Option Outcome
  | ignore => some .ignored
  | unhandled => some .unhandled
  | noCallback => some .noCallback
  | _ => none

/-- What becomes of an event now, if it is so before and after. -/
theorem Router.plan_between {router : Router} {before now after : CommandRegistry ν} {event : Event}
    (h : before.Grows now) (h' : now.Grows after)
    (he : router.plan after event = router.plan before event) :
    router.plan now event = router.plan before event := by
  by_cases hp : router.plan before event = .ignore
  · by_cases hn : router.plan now event = .ignore
    · rw [hn, hp]
    · rw [← he, plan_of_grows h' hn]
  · exact plan_of_grows h hp

namespace Delivery

variable {router : Router} {clock : Nat} {o : Outcome} {d : Delivery ν}

/-- The event is over and nobody was told anything. -/
structure Dismissed (o : Outcome) (d : Delivery ν) : Prop where
  stage : d.stage = .settled
  outcome : d.outcome = some o
  sent : d.exchange.sent = []

theorem receive_of_dismissal (h : d.plan.dismissal? = some o) :
    d.receive router clock = (d.settle o, {}) := by
  rw [receive]
  rcases hp : d.plan with _ | _ | _ | _ | _ | _ <;> rw [hp] at h <;> cases h <;> rfl

/-- No turn after the first makes a difference. -/
theorem dismissed_of_evolves {event : Event} {transport : Transport} {plan : Plan ν}
    {awaited : Bool} (hp : plan.dismissal? = some o) (hs : d.stage ≠ .arrived)
    (h : (arriving event transport plan awaited).Evolves router d) : d.Dismissed o := by
  refine (arrived_or_of_evolves rfl (fun clock => ?_) (fun _ hd => hd.stage) h).resolve_left ?_
  · have hpoll : (arriving event transport plan awaited).pollEvent router clock
        = ((arriving event transport plan awaited).settle o, {}) := receive_of_dismissal hp
    rw [hpoll]
    exact ⟨rfl, rfl, rfl⟩
  · rintro rfl
    exact hs rfl

end Delivery

namespace Machine

variable {m n : Machine ν} {id : Nat} {event : Event} {transport : Transport} {o : Outcome}
  {stays : Machine ν → Prop} {d : Delivery ν}

/-- The event is over as soon as its turn comes, and nothing is ever sent. If nobody waits for it,
so it is as long as something stays true of the machine. -/
structure Dismisses (m : Machine ν) (event : Event) (transport : Transport) (o : Outcome)
    (stays : Machine ν → Prop) : Prop where
  awaited : ∃ d, m.Adds (m.dispatchOver event transport) d ∧ d.Dismissed o
  entered : ∀ n, (m.enter event transport).Reaches n →
    ∃ d, n.deliveries[m.deliveries.length]? = some d ∧ d.Dismissed o
  posted : ∀ id, m.Pending id event transport → ∀ n, m.Reaches n → stays n →
    (∃ d, n.deliveries[id]? = some d
      ∧ (d.stage = .arrived ∧ d.exchange.sent = [] ∨ d.Dismissed o))
    ∧ ∀ l, n.settle.Reaches l → ∃ d, l.deliveries[id]? = some d ∧ d.Dismissed o

/-- What had its first turn meanwhile is dismissed. -/
theorem Pending.dismissed (h : m.Pending id event transport)
    (hp : (m.router.plan m.registry event).dismissal? = some o) (hr : m.Reaches n)
    (hs : m.router.plan n.registry event = m.router.plan m.registry event) :
    ∃ d, n.deliveries[id]? = some d
      ∧ (d.stage = .arrived ∧ d.exchange.sent = [] ∨ d.Dismissed o) := by
  rcases hr.first_turn h with hn | ⟨l, d, hl, hln, hd, hstarted, hev⟩
  · obtain ⟨d, hd, hplanned⟩ := delivery?_eq_some_iff.1 hn
    have hstage := congrArg Delivery.stage hplanned
    have hsent := congrArg (fun d => d.exchange.sent) hplanned
    rw [Delivery.planned_stage] at hstage
    rw [Delivery.planned_exchange] at hsent
    exact ⟨d, hd, .inl ⟨hstage, hsent⟩⟩
  · rw [Router.plan_between (Reaches.extends hl).registry (Reaches.extends hln).registry hs] at hev
    exact ⟨d, hd, .inr (Delivery.dismissed_of_evolves hp hstarted hev)⟩

theorem dismisses_of_plan (hm : m.Reachable)
    (hp : (m.router.plan m.registry event).dismissal? = some o)
    (hs : ∀ n, m.Reaches n → stays n →
      m.router.plan n.registry event = m.router.plan m.registry event)
    (transport : Transport) : m.Dismisses event transport o stays where
  awaited := by
    have hpoll : (Delivery.arriving event transport (m.router.plan m.registry event) true).poll
        m.router m.clock m.notes .event
          = ((Delivery.arriving event transport (m.router.plan m.registry event) true).settle o,
            {}) :=
      Delivery.receive_of_dismissal hp
    exact ⟨_, adds_dispatchOver hpoll rfl, rfl, rfl, rfl⟩
  entered n hr := by
    have hev : (Delivery.arriving event transport (m.router.plan m.registry event) true).Evolves
        m.router ((Delivery.arriving event transport (m.router.plan m.registry event)
          true).pollEvent m.router m.clock).1 :=
      Delivery.Evolves.refl.turn m.clock [] .event
    have hd := Delivery.dismissed_of_evolves hp (Delivery.pollEvent_started _) hev
    exact ⟨_, (Reaches.extends hr).settled (m.deliveries_enter event transport) hd.stage, hd⟩
  posted id hpending n hr hstays := by
    have hplan := hs n hr hstays
    refine ⟨hpending.dismissed hp hr hplan, fun l hl => ?_⟩
    have hsettled : m.Reaches n.settle := hr.trans (reaches_settle n)
    have hsame : n.settle.registry = n.registry := (runUntil_evolves n _).registry
    obtain ⟨d, hd, hdismissed⟩ := hpending.dismissed hp hsettled (hsame ▸ hplan)
    obtain ⟨e, he, hover⟩ := hpending.settle_over hm hr
    obtain rfl : d = e := Option.some.inj (hd.symm.trans he)
    have hdone : d.Dismissed o := hdismissed.resolve_left fun h => hover.started h.1
    exact ⟨d, (Reaches.extends hl).settled hd hdone.stage, hdone⟩

/-- An event whose command is known is dismissed whatever happens meanwhile. -/
theorem dismisses_of_known (hm : m.Reachable)
    (hp : (m.router.plan m.registry event).dismissal? = some o)
    (hne : m.router.plan m.registry event ≠ .ignore) (transport : Transport) :
    m.Dismisses event transport o fun _ => True :=
  dismisses_of_plan hm hp
    (fun _ hr _ => Router.plan_of_grows (Reaches.extends hr).registry hne) transport

end Machine

end SlashCommands
