import SlashCommands.Proofs.SoundMachine

/-!
# Events that wait for their first turn

Nobody waits for an event that is posted, and anything may happen before it has its first turn
(`Machine.Pending`). What becomes of it is up to the registry that the machine has at that moment;
what is sealed earlier counts, and what is sealed later does not (`Machine.Reaches.first_turn`).
-/

namespace SlashCommands

variable {ν : Type}

namespace Machine

variable {m n : Machine ν} {id : Nat} {event : Event} {transport : Transport}

/-- An event was taken in that nobody waits for, and its own task has not had a turn. -/
def Pending (m : Machine ν) (id : Nat) (event : Event) (transport : Transport) : Prop :=
  m.delivery? id = some (.arriving event transport (m.router.plan m.registry event) false)

theorem pending_postOver (m : Machine ν) (event : Event) (transport : Transport) :
    (m.postOver event transport).Pending m.deliveries.length event transport :=
  m.delivery?_postOver event transport

/-- Whatever the registry comes to hold, the event still waits. -/
theorem Pending.of_getElem? (h : m.Pending id event transport)
    (hd : n.deliveries[id]? = m.deliveries[id]?) : n.Pending id event transport := by
  obtain ⟨d, hm, hplanned⟩ := delivery?_eq_some_iff.1 h
  have he := congrArg (Delivery.planned n.router n.registry) hplanned
  rw [Delivery.planned_planned] at he
  rw [Pending, delivery?_of_getElem? (hd.trans hm), he]
  rfl

theorem Pending.turn (h : m.Pending id event transport) (role : Role) :
    (m.turn ⟨id, role⟩).Pending id event transport
      ∨ (m.turn ⟨id, role⟩).deliveries[id]?
        = some ((Delivery.arriving event transport (m.router.plan m.registry event)
          false).pollEvent m.router m.clock).1 := by
  have hd : m.delivery? (⟨id, role⟩ : Task).delivery = some _ := h
  cases role with
  | event => exact .inr (deliveries_turn_self hd)
  | handler =>
    refine .inl ?_
    rw [Pending, delivery?_turn_self hd, router_turn, registry_turn]
    rfl
  | notice =>
    refine .inl ?_
    rw [Pending, delivery?_turn_self hd, router_turn, registry_turn]
    rfl

/-- A step leaves the event waiting, or gives it its first turn. -/
theorem Step.pending (hs : m.Step n) (h : m.Pending id event transport) :
    n.Pending id event transport
      ∨ n.deliveries[id]? = some ((Delivery.arriving event transport
        (m.router.plan m.registry event) false).pollEvent m.router m.clock).1 := by
  rcases hs.spares_or_turn (lt_of_delivery? h) with hspares | ⟨queue, role, -, rfl⟩
  · exact .inl (h.of_getElem? hspares.delivery)
  · have htaken : ({ m with queue } : Machine ν).Pending id event transport := h
    exact htaken.turn role

/-- The event still waits, or the registry of the machine that gave it its first turn has settled
what becomes of it. -/
theorem Reaches.first_turn (hr : m.Reaches n) (h : m.Pending id event transport) :
    n.Pending id event transport
      ∨ ∃ o d, m.Reaches o ∧ o.Reaches n ∧ n.deliveries[id]? = some d ∧ d.stage ≠ .arrived
        ∧ (Delivery.arriving event transport (m.router.plan o.registry event) false).Evolves
          m.router d := by
  induction hr with
  | refl => exact .inl h
  | @tail n l hr hs ih =>
    have hrouter : n.router = m.router := (Reaches.extends hr).router
    rcases ih with hp | ⟨o, d, ho, hn, hd, hstarted, hev⟩
    · rcases hs.pending hp with hl | hl
      · exact .inl hl
      · rw [hrouter] at hl
        exact .inr ⟨n, _, hr, .single hs, hl, Delivery.pollEvent_started _,
          Delivery.Evolves.refl.turn n.clock [] .event⟩
    · obtain ⟨e, he, hde, hstarted⟩ := hs.extends.started hd hstarted
      exact .inr ⟨o, e, ho, hn.tail hs, he, hstarted, hev.trans (hrouter ▸ hde)⟩

end Machine

end SlashCommands
