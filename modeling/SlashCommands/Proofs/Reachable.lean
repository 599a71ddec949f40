import Mathlib.Logic.Relation
import SlashCommands.Proofs.Effort
import SlashCommands.Proofs.RegistryIndex

/-!
# Reachable machines

All that ever happens to a machine is one of a few steps (`Machine.Step`): it does the next job or
jumps to the next timer, or something comes from outside. Whatever is asked of a machine is made of
such steps (`Machine.reaches_dispatchOver` and the lemmas beside it), so what every step keeps, all
operations keep. On the way, deliveries change by turns of their own tasks only, new ones come
behind the old, and the registry loses no command (`Machine.Reaches.extends`). So what becomes of an
event is known before its first turn, except if its command is not known
(`Delivery.planned_of_grows`).
-/

namespace SlashCommands

variable {ν : Type}

namespace Machine

variable {m n o : Machine ν}

/-! ## Steps -/

/-- One thing that may happen to a machine, by itself or from outside. -/
inductive Step (m : Machine ν) : Machine ν → Prop
  | job {job : Job ν} {queue : List (Job ν)} (h : m.queue = job :: queue) :
    Step m (({ m with queue } : Machine ν).perform job)
  | tick {n : Machine ν} (h : m.tick? = some n) : Step m n
  | post (event : Event) (transport : Transport) : Step m (m.postOver event transport)
  | enter (event : Event) (transport : Transport) : Step m (m.enter event transport)
  /-- Whoever waits for a delivery looks for its outcome. -/
  | look (id : Nat) : Step m (m.turn ⟨id, .event⟩)
  | wait (ms : Nat) : Step m { m with timers := m.timers ++ [⟨m.clock + ms, none⟩] }
  | addition (a : Addition (Action ν) (Completion ν)) :
    Step m { m with queue := m.queue ++ [.addition a] }
  /-- What has no bearing on deliveries, but for commands that are sealed meanwhile. -/
  | aside {registry : CommandRegistry ν} (h : m.registry.Grows registry) (notes : List ν)
    (calls : List RegistrarCall) (logs : List LogEntry) :
    Step m { m with registry, notes, calls, logs }

/-- One machine becomes another, step by step. -/
abbrev Reaches : Machine ν → Machine ν → Prop :=
  Relation.ReflTransGen Step

/-- A machine as it can be at any time after it was new. -/
def Reachable (m : Machine ν) : Prop :=
  ∃ router registry, (Machine.new router registry).Reaches m

/-! ## Operations are made of steps -/

theorem reaches_drainWith : ∀ (fuel : Nat) (m : Machine ν), m.Reaches (drainWith fuel m)
  | 0, _ => .refl
  | fuel + 1, m => by
    rw [drainWith]
    split
    · exact .refl
    · exact .head (.job ‹_›) (reaches_drainWith fuel _)

theorem reaches_runWith (goal : Machine ν → Bool) :
    ∀ (fuel : Nat) (m : Machine ν), m.Reaches (runWith goal fuel m)
  | 0, _ => .refl
  | fuel + 1, m => by
    have hd : m.Reaches m.drain := reaches_drainWith _ m
    rw [runWith]
    split_ifs
    · exact .refl
    · dsimp only
      split_ifs
      · exact hd
      · split
        · rename_i n hn
          exact (hd.tail (.tick hn)).trans (reaches_runWith goal fuel n)
        · exact hd

theorem reaches_runUntil (m : Machine ν) (goal : Machine ν → Bool) : m.Reaches (m.runUntil goal) :=
  reaches_runWith goal _ m

theorem reaches_dispatchOver (m : Machine ν) (event : Event) (transport : Transport) :
    m.Reaches (m.dispatchOver event transport) :=
  .tail (.head (.enter event transport) (reaches_runUntil _ _)) (.look m.deliveries.length)

theorem reaches_flushNotices (m : Machine ν) : m.Reaches m.flushNotices :=
  reaches_runUntil m _

theorem reaches_flushAdditions (m : Machine ν) : m.Reaches m.flushAdditions :=
  reaches_runUntil m _

theorem reaches_settle (m : Machine ν) : m.Reaches m.settle :=
  reaches_runUntil m _

theorem reaches_idle (m : Machine ν) (ms : Nat) : m.Reaches (m.idle ms) :=
  .head (.wait ms) (reaches_runUntil _ _)

theorem reaches_addAlone (m : Machine ν) (s : Command ν) : m.Reaches (m.addAlone s) := by
  rw [addAlone]
  split
  · exact .single (.addition _)
  · exact .refl

theorem reaches_actAll : ∀ (as : List Activity) (m : Machine ν), m.Reaches (m.actAll as)
  | [], _ => .refl
  | a :: as, m => by
    have ha : m.Step (m.act a) := by
      cases a with
      | call call => exact .aside (.refl m.registry) m.notes (m.calls ++ [call]) m.logs
      | log entry => exact .aside (.refl m.registry) m.notes m.calls (m.logs ++ [entry])
    exact .head ha (reaches_actAll as (m.act a))

theorem reaches_add {s : Command ν} (h : m.add s = .ok n) : m.Reaches n := by
  rw [add] at h
  rcases hr : m.registry.add s with fault | ⟨registry, alone⟩
  · rw [hr] at h
    cases h
  · rw [hr] at h
    have hs : m.Step { m with registry } :=
      .aside (Registry.grows_of_add hr) m.notes m.calls m.logs
    cases h
    split_ifs
    · exact .head hs (reaches_addAlone _ s)
    · exact .single hs

theorem reaches_begin {registrar : Registrar} {runtime : Option Runtime}
    {snapshot : Snapshot (Action ν) (Completion ν)}
    (h : m.begin registrar runtime = .ok (n, snapshot)) : m.Reaches n := by
  rw [begin] at h
  rcases hb : m.registry.begin registrar runtime with fault | ⟨registry, taken⟩
  · rw [hb] at h
    cases h
  · rw [hb] at h
    cases h
    exact .single (.aside (Registry.grows_of_begin hb) m.notes m.calls m.logs)

theorem reaches_complete (m : Machine ν) : m.Reaches m.complete := by
  have hfold : ∀ (specs : List (Command ν)) (m : Machine ν),
      m.Reaches (specs.foldl addAlone m) := by
    intro specs
    induction specs with
    | nil => exact fun m => .refl
    | cons s specs ih => exact fun m => (reaches_addAlone m s).trans (ih _)
  exact .head (.aside m.registry.grows_complete m.notes m.calls m.logs) (hfold _ _)

theorem reaches_register {registrar : Registrar} {runtime : Option Runtime} {report : SyncReport}
    (h : m.register registrar runtime = .ok (n, report)) : m.Reaches n := by
  rw [register] at h
  rcases hb : m.begin registrar runtime with fault | ⟨begun, snapshot⟩
  · rw [hb] at h
    cases h
  · rw [hb] at h
    cases h
    exact ((reaches_begin hb).trans (reaches_actAll _ begun)).trans (reaches_complete _)

end Machine

/-! ## What becomes of events -/

theorem Router.plan_eq_ignore_iff {router : Router} {registry : CommandRegistry ν} {event : Event} :
    router.plan registry event = .ignore ↔ registry.get? event.subject.command = none := by
  cases event with
  | invocation i =>
    rw [plan, planInvocation, Event.subject]
    rcases registry.get? i.command with _ | s
    · simp
    · dsimp only
      split
      · simp
      · split <;> simp
  | completion request =>
    rw [plan, planCompletion, Event.subject]
    rcases registry.get? request.invocation.command with _ | s
    · simp
    · dsimp only
      split <;> simp

/-- What becomes of an event whose command is known stays the same. -/
theorem Router.plan_of_grows {router : Router} {registry registry' : CommandRegistry ν}
    {event : Event} (h : registry.Grows registry') (hp : router.plan registry event ≠ .ignore) :
    router.plan registry' event = router.plan registry event := by
  obtain ⟨s, hs⟩ := Option.ne_none_iff_exists'.1 (mt plan_eq_ignore_iff.2 hp)
  have hs' := h _ s hs
  cases event with
  | invocation i =>
    rw [Event.subject] at hs hs'
    rw [plan, plan, planInvocation, planInvocation, hs, hs']
  | completion request =>
    rw [Event.subject] at hs hs'
    rw [plan, plan, planCompletion, planCompletion, hs, hs']

namespace Delivery

variable {router : Router} {registry registry' : CommandRegistry ν} {d e : Delivery ν}

/-- No command that is sealed from now on makes a difference to the delivery. -/
def Decided (d : Delivery ν) : Prop :=
  d.stage = .arrived → d.plan ≠ .ignore

theorem decided_of_started (h : d.stage ≠ .arrived) : d.Decided :=
  fun hs => absurd hs h

theorem Decided.evolves (h : d.Decided) (he : d.Evolves router e) : e.Decided := by
  refine he.keeps (P := Decided) (fun e clock history role h => ?_) h
  by_cases hs : (e.poll router clock history role).1.stage = .arrived
  · rwa [(poll_eq_of_arrived hs).2]
  · exact decided_of_started hs

theorem planned_of_grows (h : registry.Grows registry') (hd : (d.planned router registry).Decided) :
    d.planned router registry' = d.planned router registry := by
  by_cases hs : d.stage = .arrived
  · rw [planned_of_arrived hs] at hd ⊢
    rw [planned_of_arrived hs, Router.plan_of_grows h (hd hs)]
  · rw [planned_of_started hs, planned_of_started hs]

end Delivery

namespace Machine

variable {m n o : Machine ν} {id : Nat} {d : Delivery ν}

/-! ## Deliveries on the way -/

/-- A step changes deliveries by turns of their own tasks, and only adds new ones; to the registry
it only adds commands. -/
structure Extends (m n : Machine ν) : Prop where
  router : n.router = m.router
  registry : m.registry.Grows n.registry
  length : m.deliveries.length ≤ n.deliveries.length
  delivery? : ∀ (id : Nat) (d : Delivery ν), m.delivery? id = some d → d.Decided →
    ∃ e, n.delivery? id = some e ∧ d.Evolves m.router e

theorem Evolves.extends (h : m.Evolves n) : m.Extends n where
  router := h.router
  registry := h.registry ▸ .refl m.registry
  length := Nat.le_of_eq h.length.symm
  delivery? := fun _ _ hd _ => h.delivery? hd

theorem Extends.trans (h : m.Extends n) (h' : n.Extends o) : m.Extends o where
  router := h'.router.trans h.router
  registry := h.registry.trans h'.registry
  length := Nat.le_trans h.length h'.length
  delivery? := fun id d hd hdecided => by
    obtain ⟨e, he, hde⟩ := h.delivery? id d hd hdecided
    obtain ⟨f, hf, hef⟩ := h'.delivery? id e he (hdecided.evolves hde)
    exact ⟨f, hf, hde.trans (h.router ▸ hef)⟩

/-- What stands where it stood is as it was, if it was decided. -/
theorem delivery?_of_grows (hr : n.router = m.router) (hg : m.registry.Grows n.registry)
    (hd : n.deliveries[id]? = m.deliveries[id]?) (h : m.delivery? id = some d)
    (hdecided : d.Decided) : n.delivery? id = some d := by
  obtain ⟨e, he, rfl⟩ := delivery?_eq_some_iff.1 h
  rw [delivery?_of_getElem? (hd.trans he), hr, Delivery.planned_of_grows hg hdecided]

theorem extends_of_eq (hr : n.router = m.router) (hg : m.registry.Grows n.registry)
    (hd : n.deliveries = m.deliveries) : m.Extends n where
  router := hr
  registry := hg
  length := Nat.le_of_eq (congrArg List.length hd.symm)
  delivery? := fun _ d h hdecided =>
    ⟨d, delivery?_of_grows hr hg (by rw [hd]) h hdecided, .refl⟩

theorem extends_concat (e : Delivery ν) (hr : n.router = m.router)
    (hg : n.registry = m.registry) (hd : n.deliveries = m.deliveries ++ [e]) : m.Extends n where
  router := hr
  registry := hg ▸ .refl m.registry
  length := by simp [hd]
  delivery? := fun id d h hdecided => by
    have hlt := lt_of_delivery? h
    refine ⟨d, delivery?_of_grows hr (hg ▸ .refl m.registry) ?_ h hdecided, .refl⟩
    rw [hd, List.getElem?_append_left hlt]

theorem Step.extends (h : m.Step n) : m.Extends n := by
  cases h with
  | @job job queue hq =>
    have hm : m.Evolves { m with queue } := .of_eq rfl rfl rfl
    exact (hm.trans (perform_evolves _ job)).extends
  | tick ht => exact (tick?_evolves ht).extends
  | post event transport => exact extends_concat _ rfl rfl rfl
  | enter event transport =>
    have hm : m.Extends (m.take event transport) := extends_concat _ rfl rfl rfl
    exact hm.trans (turn_evolves _ _).extends
  | look id => exact (turn_evolves m _).extends
  | wait ms => exact extends_of_eq rfl (.refl _) rfl
  | addition a => exact extends_of_eq rfl (.refl _) rfl
  | aside hg => exact extends_of_eq rfl hg rfl

theorem Reaches.extends (h : m.Reaches n) : m.Extends n := by
  induction h with
  | refl => exact (Evolves.refl m).extends
  | tail _ hs ih => exact ih.trans hs.extends

/-- What has started goes on by its own tasks, whatever the registry comes to hold. -/
theorem Extends.started (h : m.Extends n) (hd : m.deliveries[id]? = some d)
    (hs : d.stage ≠ .arrived) :
    ∃ e, n.deliveries[id]? = some e ∧ d.Evolves m.router e ∧ e.stage ≠ .arrived := by
  obtain ⟨e, he, hde⟩ := h.delivery? id d ((delivery?_iff_of_started hs).2 hd)
    (Delivery.decided_of_started hs)
  have hstarted : e.stage ≠ .arrived := hde.keeps (P := fun d => d.stage ≠ .arrived)
    (fun _ _ history role hs => Delivery.poll_started hs history role) hs
  exact ⟨e, (delivery?_iff_of_started hstarted).1 he, hde, hstarted⟩

/-- What is settled stays as it is. -/
theorem Extends.settled (h : m.Extends n) (hd : m.deliveries[id]? = some d)
    (hs : d.stage = .settled) : n.deliveries[id]? = some d := by
  obtain ⟨e, he, hev, -⟩ := h.started hd (by simp [hs])
  rwa [hev.eq_of_settled hs] at he

/-! ## Events that come in -/

theorem delivery?_postOver (m : Machine ν) (event : Event) (transport : Transport) :
    (m.postOver event transport).delivery? m.deliveries.length
      = some (.arriving event transport (m.router.plan m.registry event) false) := by
  have h : (m.postOver event transport).deliveries[m.deliveries.length]?
      = some (.posted event transport false) := List.getElem?_concat_length
  exact delivery?_of_getElem? h

theorem delivery?_postOver_of_lt (h : id < m.deliveries.length) (event : Event)
    (transport : Transport) : (m.postOver event transport).delivery? id = m.delivery? id :=
  congrArg (Option.map _) (List.getElem?_append_left h)

theorem delivery?_take (m : Machine ν) (event : Event) (transport : Transport) :
    (m.take event transport).delivery? m.deliveries.length
      = some (.arriving event transport (m.router.plan m.registry event) true) := by
  have h : (m.take event transport).deliveries[m.deliveries.length]?
      = some (.posted event transport true) := List.getElem?_concat_length
  exact delivery?_of_getElem? h

/-- Its first turn starts the delivery. -/
theorem deliveries_enter (m : Machine ν) (event : Event) (transport : Transport) :
    (m.enter event transport).deliveries[m.deliveries.length]?
      = some ((Delivery.arriving event transport (m.router.plan m.registry event) true).pollEvent
        m.router m.clock).1 :=
  deliveries_turn_self (m.delivery?_take event transport)

theorem reaches_enter_dispatchOver (m : Machine ν) (event : Event) (transport : Transport) :
    (m.enter event transport).Reaches (m.dispatchOver event transport) :=
  (reaches_runUntil _ _).tail (.look m.deliveries.length)

end Machine

end SlashCommands
