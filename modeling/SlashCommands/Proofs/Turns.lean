import Mathlib.Tactic.SplitIfs
import SlashCommands.Machine

/-!
# Turns

Whatever runs on a machine, a delivery changes by turns of its own tasks only, each at some time and
with some history of notes (`Delivery.Evolves`). The first turn settles what becomes of the event,
by what the registry holds at that time (`Delivery.planned`); from then on the registry has no
bearing on the delivery (`Delivery.Evolves.planned_eq`). So what every turn of a delivery keeps, a
machine keeps until it comes to rest, however its tasks are mixed with those of other deliveries
(`Machine.runUntil_evolves`).
-/

namespace SlashCommands

variable {ν : Type}

namespace Delivery

variable {router : Router} {registry registry' : CommandRegistry ν} {clock : Nat} {d : Delivery ν}

/-- A task that has nothing to do at a stage does nothing. -/
theorem poll_of_unheeded {role : Role} (h : d.stage.heeds role = false) (router : Router)
    (clock : Nat) (history : List ν) : d.poll router clock history role = (d, {}) := by
  rcases hs : d.stage with _ | ⟨acts, ending⟩ | ending | rested | _ <;> cases role <;>
    simp_all [poll, pollEvent, pollHandler, pollNotice, Stage.heeds]

theorem poll_of_settled (h : d.stage = .settled) (history : List ν) (role : Role) :
    d.poll router clock history role = (d, {}) :=
  poll_of_unheeded (by rw [h]; cases role <;> rfl) router clock history

/-! ## Once it has started -/

theorem conclude_started (h : d.stage ≠ .arrived) (ending : Ending) :
    (d.conclude ending).1.stage ≠ .arrived := by
  rw [conclude]
  split
  · cases ending <;> simp [concludeAction, settle]
  · cases ending <;> simp [concludeCompletion, settle]
  · exact h

theorem start_started {program : Program ν} (h : ∀ ending, (d.conclude ending).1.stage ≠ .arrived) :
    (d.start router clock program).1.stage ≠ .arrived := by
  rw [start]
  split
  · simp
  · exact h _
  · simp

/-- No event waits for its first turn a second time. -/
theorem pollEvent_started (d : Delivery ν) : (d.pollEvent router clock).1.stage ≠ .arrived := by
  rw [pollEvent]
  split
  · rw [receive]
    split
    · simp [settle]
    · simp [settle]
    · simp [settle]
    · simp [settle]
    · refine start_started fun ending => ?_
      rw [conclude, ‹d.plan = _›]
      cases ending <;> simp [concludeAction, settle]
    · refine start_started fun ending => ?_
      rw [conclude, ‹d.plan = _›]
      cases ending <;> simp [concludeCompletion, settle]
  · split_ifs
    · exact conclude_started (by simp [*]) _
    · simp [*]
  · exact conclude_started (by simp [*]) _
  · rename_i hs _ _
    exact hs

theorem poll_started (h : d.stage ≠ .arrived) (history : List ν) (role : Role) :
    (d.poll router clock history role).1.stage ≠ .arrived := by
  cases role with
  | event => exact d.pollEvent_started
  | handler =>
    rw [poll, pollHandler]
    split
    · dsimp only
      split <;> simp
    · exact h
  | notice =>
    rw [poll, pollNotice]
    split
    · split_ifs <;> simp
    · exact h

/-- What waits for its first turn after a turn has done nothing in it. -/
theorem poll_eq_of_arrived {history : List ν} {role : Role}
    (h : (d.poll router clock history role).1.stage = .arrived) :
    d.stage = .arrived ∧ d.poll router clock history role = (d, {}) := by
  have hs : d.stage = .arrived :=
    Classical.byContradiction fun hs => poll_started hs history role h
  refine ⟨hs, ?_⟩
  cases role with
  | event => exact absurd h d.pollEvent_started
  | handler => exact poll_of_unheeded (by rw [hs]; rfl) _ _ _
  | notice => exact poll_of_unheeded (by rw [hs]; rfl) _ _ _

/-! ## What becomes of an event -/

theorem planned_of_started (h : d.stage ≠ .arrived) (router : Router)
    (registry : CommandRegistry ν) : d.planned router registry = d := by
  rw [planned]
  split
  · exact absurd ‹_› h
  · rfl

theorem planned_of_arrived (h : d.stage = .arrived) (router : Router)
    (registry : CommandRegistry ν) :
    d.planned router registry = { d with plan := router.plan registry d.event } := by
  rw [planned, h]

/-- All but the plan is as it was. -/
theorem exists_planned_eq (d : Delivery ν) (router : Router) (registry : CommandRegistry ν) :
    ∃ plan, d.planned router registry = { d with plan } := by
  by_cases h : d.stage = .arrived
  · exact ⟨_, planned_of_arrived h router registry⟩
  · exact ⟨d.plan, planned_of_started h router registry⟩

@[simp]
theorem planned_stage : (d.planned router registry).stage = d.stage := by
  obtain ⟨plan, h⟩ := d.exists_planned_eq router registry
  rw [h]

@[simp]
theorem planned_exchange : (d.planned router registry).exchange = d.exchange := by
  obtain ⟨plan, h⟩ := d.exists_planned_eq router registry
  rw [h]

@[simp]
theorem planned_awaited : (d.planned router registry).awaited = d.awaited := by
  obtain ⟨plan, h⟩ := d.exists_planned_eq router registry
  rw [h]

@[simp]
theorem planned_outcome : (d.planned router registry).outcome = d.outcome := by
  obtain ⟨plan, h⟩ := d.exists_planned_eq router registry
  rw [h]

/-- Only what was settled last counts. -/
@[simp]
theorem planned_planned {router' : Router} :
    (d.planned router registry).planned router' registry' = d.planned router' registry' := by
  by_cases h : d.stage = .arrived
  · simp only [planned, h]
  · rw [planned_of_started h]

theorem poll_planned (h : d.planned router registry = d) (history : List ν) (role : Role) :
    (d.poll router clock history role).1.planned router registry
      = (d.poll router clock history role).1 := by
  by_cases hs : (d.poll router clock history role).1.stage = .arrived
  · rwa [(poll_eq_of_arrived hs).2]
  · exact planned_of_started hs router registry

end Delivery

/-- By any number of turns, at any times, a delivery becomes another. -/
inductive Delivery.Evolves (router : Router) (d : Delivery ν) : Delivery ν → Prop
  | refl : Evolves router d d
  | turn {e : Delivery ν} (h : Evolves router d e) (clock : Nat) (history : List ν) (role : Role) :
    Evolves router d (e.poll router clock history role).1

namespace Delivery.Evolves

variable {router : Router} {d e f : Delivery ν}

theorem trans (h : d.Evolves router e) (h' : e.Evolves router f) : d.Evolves router f := by
  induction h' with
  | refl => exact h
  | turn _ clock history role ih => exact ih.turn clock history role

/-- What each turn keeps is kept. -/
theorem keeps {P : Delivery ν → Prop} (h : d.Evolves router e)
    (hP : ∀ e clock history role, P e → P (e.poll router clock history role).1) (hd : P d) :
    P e := by
  induction h with
  | refl => exact hd
  | turn _ clock history role ih => exact hP _ clock history role ih

/-- What the registry holds has no bearing on what came of its first look. -/
theorem planned_eq {registry : CommandRegistry ν} (h : d.Evolves router e)
    (hd : d.planned router registry = d) : e.planned router registry = e :=
  h.keeps (P := fun e => e.planned router registry = e)
    (fun _ _ history role he => Delivery.poll_planned he history role) hd

theorem eq_of_settled (h : d.Evolves router e) (hs : d.stage = .settled) : e = d :=
  h.keeps (P := fun e => e = d)
    (fun e clock history role he => by rw [he, Delivery.poll_of_settled hs]) rfl

end Delivery.Evolves

namespace Machine

variable {m n o : Machine ν} {id : Nat} {task : Task} {d : Delivery ν}

/-! ## One turn -/

theorem delivery?_eq_some_iff : m.delivery? id = some d
    ↔ ∃ e, m.deliveries[id]? = some e ∧ e.planned m.router m.registry = d :=
  Option.map_eq_some_iff

theorem delivery?_of_getElem? (h : m.deliveries[id]? = some d) :
    m.delivery? id = some (d.planned m.router m.registry) := by
  rw [delivery?, h, Option.map_some]

/-- What has started is as it stands. -/
theorem delivery?_iff_of_started (hs : d.stage ≠ .arrived) :
    m.delivery? id = some d ↔ m.deliveries[id]? = some d := by
  rw [delivery?_eq_some_iff]
  constructor
  · rintro ⟨e, he, rfl⟩
    rw [Delivery.planned_stage] at hs
    rw [he, Delivery.planned_of_started hs]
  · exact fun h => ⟨d, h, Delivery.planned_of_started hs _ _⟩

/-- Whether there is an outcome to have does not depend on what becomes of the event. -/
theorem due_eq_of_delivery? (h : m.delivery? id = some d) : m.due id = d.isDue m.clock := by
  obtain ⟨e, he, rfl⟩ := delivery?_eq_some_iff.1 h
  obtain ⟨plan, hplanned⟩ := e.exists_planned_eq m.router m.registry
  rw [due, he, hplanned]
  rfl

theorem lt_of_delivery? (h : m.delivery? id = some d) : id < m.deliveries.length := by
  obtain ⟨e, he, -⟩ := delivery?_eq_some_iff.1 h
  exact (List.getElem?_eq_some_iff.1 he).1

theorem planned_eq_of_delivery? (h : m.delivery? id = some d) :
    d.planned m.router m.registry = d := by
  obtain ⟨e, -, rfl⟩ := delivery?_eq_some_iff.1 h
  exact Delivery.planned_planned

theorem turn_eq_of_some (h : m.delivery? task.delivery = some d) :
    m.turn task = { m with
      deliveries := m.deliveries.set task.delivery (d.poll m.router m.clock m.notes task.role).1
      queue := m.queue ++ (d.poll m.router m.clock m.notes task.role).2.ready.map fun role =>
        .task ⟨task.delivery, role⟩
      timers := m.timers.filter
          (keeps task.delivery (d.poll m.router m.clock m.notes task.role).1.stage)
        ++ (d.poll m.router m.clock m.notes task.role).2.timers.map fun timer =>
          ⟨timer.1, some ⟨task.delivery, timer.2⟩⟩
      notes := m.notes ++ (d.poll m.router m.clock m.notes task.role).2.notes
      logs := m.logs ++ (d.poll m.router m.clock m.notes task.role).2.logs } := by
  rw [turn, h]

theorem turn_eq_of_none (h : m.delivery? task.delivery = none) : m.turn task = m := by
  rw [turn, h]

theorem router_turn (m : Machine ν) (task : Task) : (m.turn task).router = m.router := by
  rw [turn]
  split <;> rfl

theorem registry_turn (m : Machine ν) (task : Task) : (m.turn task).registry = m.registry := by
  rw [turn]
  split <;> rfl

theorem clock_turn (m : Machine ν) (task : Task) : (m.turn task).clock = m.clock := by
  rw [turn]
  split <;> rfl

theorem deliveries_turn_self (h : m.delivery? task.delivery = some d) :
    (m.turn task).deliveries[task.delivery]?
      = some (d.poll m.router m.clock m.notes task.role).1 := by
  rw [turn_eq_of_some h, List.getElem?_set_self (lt_of_delivery? h)]

theorem deliveries_turn_of_ne (h : id ≠ task.delivery) :
    (m.turn task).deliveries[id]? = m.deliveries[id]? := by
  rcases hd : m.delivery? task.delivery with _ | d
  · rw [turn_eq_of_none hd]
  · rw [turn_eq_of_some hd, List.getElem?_set_ne h.symm]

theorem delivery?_turn_self (h : m.delivery? task.delivery = some d) :
    (m.turn task).delivery? task.delivery
      = some (d.poll m.router m.clock m.notes task.role).1 := by
  rw [delivery?, deliveries_turn_self h, router_turn, registry_turn, Option.map_some,
    Delivery.poll_planned (planned_eq_of_delivery? h)]

theorem delivery?_turn_of_ne (h : id ≠ task.delivery) :
    (m.turn task).delivery? id = m.delivery? id := by
  rw [delivery?, deliveries_turn_of_ne h, router_turn, registry_turn, delivery?]

/-! ## Any number of turns -/

/-- By running, a machine becomes another: each delivery is as it was, or evolves by what the
registry holds, and none comes or goes. -/
structure Evolves (m n : Machine ν) : Prop where
  router : n.router = m.router
  registry : n.registry = m.registry
  length : n.deliveries.length = m.deliveries.length
  deliveries : ∀ (id : Nat) (d : Delivery ν), m.deliveries[id]? = some d →
    ∃ e, n.deliveries[id]? = some e
      ∧ (e = d ∨ (d.planned m.router m.registry).Evolves m.router e)

namespace Evolves

theorem of_eq (hr : n.router = m.router) (hg : n.registry = m.registry)
    (hd : n.deliveries = m.deliveries) : m.Evolves n where
  router := hr
  registry := hg
  length := congrArg List.length hd
  deliveries := fun _ d h => ⟨d, hd ▸ h, .inl rfl⟩

theorem refl (m : Machine ν) : m.Evolves m :=
  of_eq rfl rfl rfl

theorem trans (h : m.Evolves n) (h' : n.Evolves o) : m.Evolves o where
  router := h'.router.trans h.router
  registry := h'.registry.trans h.registry
  length := h'.length.trans h.length
  deliveries := fun id d hd => by
    obtain ⟨e, he, hde⟩ := h.deliveries id d hd
    obtain ⟨f, hf, hef⟩ := h'.deliveries id e he
    refine ⟨f, hf, ?_⟩
    rw [h.router, h.registry] at hef
    rcases hde with rfl | hde
    · exact hef
    · rw [hde.planned_eq Delivery.planned_planned] at hef
      rcases hef with rfl | hef
      · exact .inr hde
      · exact .inr (hde.trans hef)

/-- A delivery evolves from what the registry makes of it. -/
theorem delivery? (h : m.Evolves n) (hd : m.delivery? id = some d) :
    ∃ e, n.delivery? id = some e ∧ d.Evolves m.router e := by
  obtain ⟨d, hm, rfl⟩ := delivery?_eq_some_iff.1 hd
  obtain ⟨e, he, hde⟩ := h.deliveries id d hm
  refine ⟨_, delivery?_of_getElem? he, ?_⟩
  rw [h.router, h.registry]
  rcases hde with rfl | hde
  · exact .refl
  · rwa [hde.planned_eq Delivery.planned_planned]

/-- What each turn keeps of deliveries, whatever the registry holds, holds of all of them again. -/
theorem forall_deliveries {P : Delivery ν → Prop} (h : m.Evolves n)
    (hP : ∀ d clock history role, P d → P (d.poll m.router clock history role).1)
    (hplanned : ∀ d, P d → P (d.planned m.router m.registry))
    (hm : ∀ d ∈ m.deliveries, P d) : ∀ d ∈ n.deliveries, P d := by
  intro d hd
  obtain ⟨id, hid⟩ := List.mem_iff_getElem?.1 hd
  have hlt : id < m.deliveries.length := h.length ▸ (List.getElem?_eq_some_iff.1 hid).1
  obtain ⟨e, he, hev⟩ := h.deliveries id _ (List.getElem?_eq_getElem hlt)
  obtain rfl : e = d := Option.some.inj (he.symm.trans hid)
  have hold := hm _ (List.getElem_mem hlt)
  rcases hev with rfl | hev
  · exact hold
  · exact hev.keeps hP (hplanned _ hold)

end Evolves

theorem turn_evolves (m : Machine ν) (task : Task) : m.Evolves (m.turn task) := by
  rcases hd : m.delivery? task.delivery with _ | d
  · rw [turn_eq_of_none hd]
    exact .refl m
  · refine ⟨router_turn m task, registry_turn m task, ?_, fun id e he => ?_⟩
    · rw [turn_eq_of_some hd]
      exact List.length_set
    · by_cases hid : id = task.delivery
      · subst hid
        refine ⟨_, deliveries_turn_self hd, .inr ?_⟩
        obtain rfl : e.planned m.router m.registry = d :=
          Option.some.inj ((delivery?_of_getElem? he).symm.trans hd)
        exact Delivery.Evolves.refl.turn m.clock m.notes task.role
      · exact ⟨e, (deliveries_turn_of_ne hid).trans he, .inl rfl⟩

/-- What a registration does has no bearing on deliveries. -/
theorem actAll_eq : ∀ (as : List Activity) (m : Machine ν),
    ∃ calls logs, m.actAll as = { m with calls, logs }
  | [], m => ⟨m.calls, m.logs, rfl⟩
  | .call call :: as, m => actAll_eq as (m.act (.call call))
  | .log entry :: as, m => actAll_eq as (m.act (.log entry))

theorem actAll_evolves (as : List Activity) (m : Machine ν) : m.Evolves (m.actAll as) := by
  obtain ⟨calls, logs, he⟩ := actAll_eq as m
  rw [he]
  exact .of_eq rfl rfl rfl

theorem clock_perform (m : Machine ν) (job : Job ν) : (m.perform job).clock = m.clock := by
  cases job with
  | task task => exact m.clock_turn task
  | addition addition =>
    obtain ⟨calls, logs, he⟩ := actAll_eq addition.run m
    rw [perform, he]

theorem perform_evolves (m : Machine ν) (job : Job ν) : m.Evolves (m.perform job) := by
  rcases job with task | addition
  · exact m.turn_evolves task
  · exact actAll_evolves addition.run m

theorem drainWith_evolves : ∀ (fuel : Nat) (m : Machine ν), m.Evolves (drainWith fuel m)
  | 0, m => .refl m
  | fuel + 1, m => by
    rw [drainWith]
    split
    · exact .refl m
    · rename_i job queue _
      have hq : m.Evolves { m with queue } := .of_eq rfl rfl rfl
      exact (hq.trans (perform_evolves _ job)).trans (drainWith_evolves fuel _)

theorem tick?_evolves (h : m.tick? = some n) : m.Evolves n := by
  obtain ⟨time, -, rfl⟩ := Option.map_eq_some_iff.1 h
  exact .of_eq rfl rfl rfl

theorem runWith_evolves (goal : Machine ν → Bool) :
    ∀ (fuel : Nat) (m : Machine ν), m.Evolves (runWith goal fuel m)
  | 0, m => .refl m
  | fuel + 1, m => by
    have hd : m.Evolves m.drain := drainWith_evolves _ m
    rw [runWith]
    split_ifs
    · exact .refl m
    · dsimp only
      split_ifs
      · exact hd
      · split
        · rename_i n hn
          exact (hd.trans (tick?_evolves hn)).trans (runWith_evolves goal fuel n)
        · exact hd

theorem runUntil_evolves (m : Machine ν) (goal : Machine ν → Bool) :
    m.Evolves (m.runUntil goal) :=
  runWith_evolves goal _ m

end Machine

end SlashCommands
