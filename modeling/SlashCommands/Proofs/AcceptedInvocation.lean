import SlashCommands.Proofs.DeliveryStages
import SlashCommands.Proofs.FailureNotice
import SlashCommands.Proofs.PromptHandler

/-!
# Accepted invocations

An invocation that a handler was found for is attended to until the handler is over
(`Machine.Attended`), and no notice of it is on its way. The turn that ends this concludes, because
the handler came to its end or because its time is up by then (`Machine.Follows`). While somebody
waits for the outcome, the handler wakes up on time, so it is given up only if it sleeps too long
itself (`Machine.Expects`). So each accepted invocation comes to its outcome once, and a failure is
told once (`Machine.failure_noticed_once`).
-/

namespace SlashCommands

variable {ν : Type}

namespace Delivery

variable {router : Router} {since : Nat} {x : Exchange} {program : Program ν} {d : Delivery ν}

/-- An invocation whose handler is not over, or that nobody has looked at since. -/
structure Underway (router : Router) (since : Nat) (x : Exchange) (program : Program ν)
    (d : Delivery ν) : Prop where
  working : d.Working router since x program
  plan : ∃ command path, d.plan = .handle command path program

theorem Underway.plan_program (h : d.Underway router since x program) :
    d.plan.program? = some program := by
  obtain ⟨command, path, hp⟩ := h.plan
  rw [hp, Plan.program?]

theorem Underway.decided (h : d.Underway router since x program) : d.Decided := by
  obtain ⟨command, path, hp⟩ := h.plan
  exact fun _ he => by simp [hp] at he

/-- An invocation that a handler was found for, at its first turn. -/
theorem underway_arriving {i : Invocation} {command : String} {path : Path}
    (transport : Transport) (awaited : Bool) (since : Nat) :
    (arriving (.invocation i) transport (.handle command path program) awaited).Underway router
      since (.new i transport) program :=
  ⟨⟨rfl, fun _ h => by simp [arriving, posted] at h, rfl⟩, command, path, rfl⟩

end Delivery

namespace Machine

open Delivery

variable {m n : Machine ν} {id since : Nat} {x y : Exchange} {program : Program ν}
  {late : Nat → List (Act ν) → Prop} {ending : Ending} {d : Delivery ν}

/-! ## While the handler is not over -/

/-- An invocation whose handler is not over, with no notice to come. -/
structure Attended (m : Machine ν) (id since : Nat) (x : Exchange) (program : Program ν)
    (d : Delivery ν) : Prop where
  found : m.delivery? id = some d
  underway : d.Underway m.router since x program
  since_le : since ≤ m.clock
  quiet : ¬ m.WillRun ⟨id, .notice⟩

/-- The handler is not over, or is so since now. -/
inductive Follows (m : Machine ν) (id since : Nat) (x : Exchange) (program : Program ν)
    (late : Nat → List (Act ν) → Prop) : Prop
  | going {d : Delivery ν} (h : m.Attended id since x program d)
  | ended {y : Exchange} {ending : Ending} (hh : Handled x program late y ending)
    (he : m.Ended id y m.clock ending)

theorem ended_of_concludes {task : Task} (hd : m.delivery? task.delivery = some d)
    (hn : ¬ m.WillRun ⟨task.delivery, .notice⟩)
    (hc : Concludes y ending (d.poll m.router m.clock m.notes task.role)) :
    (m.turn task).Ended task.delivery y (m.turn task).clock ending := by
  have hself := deliveries_turn_self hd
  have hturn := turn_eq_of_some hd
  rw [clock_turn]
  generalize d.poll m.router m.clock m.notes task.role = result at hc hself hturn
  cases hc with
  | done hs ho hx => exact .done hself ⟨hs, ho, hx⟩
  | failed hs ho hx =>
    refine .failed ⟨hself, ho, ?_⟩
    rw [hturn]
    refine .fresh hs hx (.concat fun hm => hn (.inl hm)) (fun timer ht hk => ?_) (Nat.le_refl _)
    refine hn (.inr ⟨timer, ?_, hk⟩)
    exact (List.mem_filter.1 (by simpa using ht)).1

namespace Attended

theorem frame (h : m.Attended id since x program d) (hs : m.Spares id n)
    (hc : m.clock ≤ n.clock) : n.Attended id since x program d where
  found := delivery?_of_grows hs.router hs.registry hs.delivery h.found h.underway.decided
  underway := hs.router ▸ h.underway
  since_le := Nat.le_trans h.since_le hc
  quiet := fun hn => h.quiet (hs.willRun _ hn)

theorem turn (h : m.Attended id since x program d)
    (hl : ∀ limit rest, d.left? program = some rest → m.router.Late since m.clock limit rest →
      late limit rest) (role : Role) :
    (m.turn ⟨id, role⟩).Follows id since x program late := by
  have hfound : m.delivery? (⟨id, role⟩ : Task).delivery = some d := h.found
  have hg := h.underway.working.poll h.underway.plan_program h.since_le hl m.notes role
  have hself := delivery?_turn_self hfound
  obtain ⟨command, path, hhandle⟩ := h.underway.plan
  generalize hp : d.poll m.router m.clock m.notes role = result at hg hself
  cases hg with
  | on he hplan hlogs hr ht =>
    refine .going ⟨hself, ⟨?_, command, path, hplan.trans hhandle⟩, ?_, fun hw => ?_⟩
    · rw [router_turn]
      exact he
    · rw [clock_turn]
      exact h.since_le
    · rcases willRun_of_turn hfound hw with hw | ⟨-, hw⟩
      · exact h.quiet hw
      · rw [hp] at hw
        rcases hw with hw | ⟨time, hw⟩
        · exact hr hw
        · exact ht _ hw rfl
  | @concludes ending hh =>
    exact .ended hh (ended_of_concludes hfound h.quiet (hp ▸ conclude_concludes hhandle ending))

/-- A step leaves the delivery alone, or it is a turn of its own. -/
theorem step (h : m.Attended id since x program d) (hs : m.Step n) (hm : m.Sound)
    (hl : ∀ limit rest, d.left? program = some rest → m.router.Late since m.clock limit rest →
      late limit rest) : n.Follows id since x program late := by
  rcases hs.spares_or_turn (lt_of_delivery? h.found) with hspares | ⟨queue, role, hq, rfl⟩
  · exact .going (h.frame hspares (hs.clock_le hm))
  · exact (h.frame (spares_of_subset hq) (Nat.le_refl _)).turn hl role

theorem outcome_eq_none (h : m.Attended id since x program d) : m.outcome? id = none := by
  obtain ⟨e, he, rfl⟩ := delivery?_eq_some_iff.1 h.found
  rw [outcome?, he]
  simpa using h.underway.working.outcome

end Attended

/-- Whatever happens to the machine, the handler goes on, or is over by its own end or because its
time is up. -/
theorem Step.follows (hs : m.Step n) (hm : m.Sound) (h : m.Attended id since x program d) :
    n.Follows id since x program (m.router.Late since n.clock) :=
  h.step hs hm fun _ _ _ hl => hl.mono (hs.clock_le hm)

theorem Reaches.attended_or_ended (hr : m.Reaches n) (hm : m.Sound) (hx : x.Faithful)
    (h : m.Attended id since x program d) :
    (∃ e, n.Attended id since x program e)
      ∨ ∃ y ending clock, Handled x program (m.router.Late since clock) y ending
        ∧ n.Ended id y clock ending := by
  induction hr with
  | refl => exact .inl ⟨d, h⟩
  | @tail n o hr hs ih =>
    have hn : n.Sound := Reaches.sound hr hm
    rcases ih with ⟨e, he⟩ | ⟨y, ending, clock, hh, he⟩
    · cases hs.follows hn he with
      | going ho => exact .inl ⟨_, ho⟩
      | ended hh ho =>
        rw [(Reaches.extends hr).router] at hh
        exact .inr ⟨_, _, _, hh, ho⟩
    · exact .inr ⟨y, ending, clock, hh, he.reaches (.single hs) hn (hh.faithful hx)⟩

/-! ## While somebody waits -/

/-- Somebody waits for a handler that wakes up on time, or it is over since now. -/
inductive Expects (m : Machine ν) (id since : Nat) (x : Exchange) (program : Program ν) : Prop
  | going {d : Delivery ν} (h : m.Attended id since x program d)
    (hp : m.Prompt id since program d)
  | ended {y : Exchange} {ending : Ending}
    (hh : Handled x program (m.router.TooSlow program since m.clock) y ending)
    (he : m.Ended id y m.clock ending)

theorem expects_of_follows {late : Nat → List (Act ν) → Prop}
    (h : m.Follows id since x program late) (hp : m.Prompt id since program d)
    (hl : ∀ limit rest, late limit rest → m.router.TooSlow program since m.clock limit rest) :
    m.Expects id since x program := by
  cases h with
  | going h =>
    cases Option.some.inj (h.found.symm.trans hp.delivery?)
    exact .going h hp
  | ended hh he => exact .ended (hh.mono hl) he

theorem expects_enter {i : Invocation} {transport : Transport} {command : String} {path : Path}
    (hm : m.Sound)
    (hp : m.router.plan m.registry (.invocation i) = .handle command path program) :
    (m.enter (.invocation i) transport).Expects m.deliveries.length m.clock (.new i transport)
      program := by
  have htaken : (m.take (.invocation i) transport).Attended m.deliveries.length m.clock
      (.new i transport) program _ :=
    ⟨m.delivery?_take _ _, hp ▸ underway_arriving transport true m.clock, Nat.le_refl _,
      fun hw => Nat.lt_irrefl _ (hm.known _ hw)⟩
  obtain ⟨d, hprompt⟩ : ∃ d, (m.enter (.invocation i) transport).Prompt m.deliveries.length
      m.clock program d := prompt_enter (by rw [hp, Plan.program?])
  have hfollows : (m.enter (.invocation i) transport).Follows m.deliveries.length m.clock
      (.new i transport) program (m.router.TooSlow program m.clock m.clock) := by
    -- at the first turn all is left to do
    refine htaken.turn (fun limit rest hl hlate => ⟨hlate, ?_⟩) .event
    cases hl
    have : m.clock + limit ≤ m.clock := hlate.2
    omega
  refine expects_of_follows hfollows hprompt fun limit rest hl => ?_
  rw [Machine.enter, router_turn, clock_turn]
  exact hl

namespace Expects

theorem perform (h : m.Expects id since x program) (hm : m.Sound) (hx : x.Faithful) {job : Job ν}
    {queue : List (Job ν)} (hq : m.queue = job :: queue) :
    (({ m with queue } : Machine ν).perform job).Expects id since x program := by
  have hs : m.Step (({ m with queue } : Machine ν).perform job) := .job hq
  have hclock : (({ m with queue } : Machine ν).perform job).clock = m.clock :=
    clock_perform { m with queue } job
  have hlate : ∀ limit rest, m.router.TooSlow program since m.clock limit rest →
      (({ m with queue } : Machine ν).perform job).router.TooSlow program since
        (({ m with queue } : Machine ν).perform job).clock limit rest := by
    rw [hs.extends.router, hclock]
    exact fun _ _ hl => hl
  cases h with
  | going h hp =>
    obtain ⟨e, he⟩ := hp.perform hq
    exact expects_of_follows (h.step hs hm fun _ _ => hp.tooSlow) he hlate
  | ended hh he =>
    refine .ended (hh.mono hlate) ?_
    rw [hclock]
    exact he.reaches (.single hs) hm (hh.faithful hx)

/-- What is over is due, so the clock does not move any more. -/
theorem tick (h : m.Expects id since x program) (hm : m.Sound) (hg : m.due id = false)
    (hq : m.queue = []) (ht : m.tick? = some n) : n.Expects id since x program := by
  cases h with
  | going h hp =>
    exact .going (h.frame (spares_tick ht) ((Step.tick ht).clock_le hm)) (hp.tick hq ht)
  | ended hh he =>
    rw [he.due] at hg
    cases hg

theorem runUntil (h : m.Expects id since x program) (hm : m.Sound) (hx : x.Faithful) :
    (m.runUntil (Machine.due id)).Expects id since x program :=
  (runWith_keeps (P := fun n => n.Sound ∧ n.Expects id since x program)
    (fun _ _ _ hn hq => ⟨hn.1.perform hq, hn.2.perform hn.1 hx hq⟩)
    (fun _ _ hn hg hq ht => ⟨hn.1.tick ht, hn.2.tick hn.1 hg hq ht⟩) _ ⟨hm, h⟩).2

/-- Whoever looks when the outcome is due, has it. -/
theorem look (h : m.Expects id since x program) (hm : m.Sound) (hx : x.Faithful)
    (hd : m.due id = true) :
    ∃ y ending, Handled x program (m.router.TooSlow program since m.clock) y ending
      ∧ (m.turn ⟨id, .event⟩).Ended id y (m.turn ⟨id, .event⟩).clock ending := by
  cases h with
  | @going d h hp =>
    have hfound : m.delivery? (⟨id, .event⟩ : Task).delivery = some d := h.found
    have hdue : d.isDue m.clock = true := (due_eq_of_delivery? h.found).symm.trans hd
    obtain ⟨ending, hh, he⟩ := h.underway.working.pollEvent_of_due (fun _ _ => hp.tooSlow) hdue
    obtain ⟨command, path, hhandle⟩ := h.underway.plan
    have hc := conclude_concludes hhandle ending
    rw [← he] at hc
    exact ⟨_, _, hh, ended_of_concludes hfound h.quiet hc⟩
  | ended hh he =>
    rw [clock_turn]
    exact ⟨_, _, hh, he.reaches (.single (.look id)) hm (hh.faithful hx)⟩

end Expects

theorem dispatchOver_ended {i : Invocation} {command : String} {path : Path} (hm : m.Sound)
    (hp : m.router.plan m.registry (.invocation i) = .handle command path program)
    (transport : Transport) :
    ∃ y ending, Handled (.new i transport) program (m.router.TooSlow program m.clock
        (m.dispatchOver (.invocation i) transport).clock) y ending
      ∧ (m.dispatchOver (.invocation i) transport).Ended m.deliveries.length y
        (m.dispatchOver (.invocation i) transport).clock ending := by
  let ran := (m.enter (.invocation i) transport).runUntil (due m.deliveries.length)
  have hentered : (m.enter (.invocation i) transport).Sound := hm.enter _ _
  have hran : ran.Expects m.deliveries.length m.clock (.new i transport) program :=
    (expects_enter hm hp).runUntil hentered (Exchange.faithful_new i transport)
  have hsound : ran.Sound := (reaches_runUntil _ _).sound hentered
  have hrouter : ran.router = m.router :=
    (reaches_runUntil _ _).extends.router.trans
      (Step.enter (.invocation i) transport).extends.router
  have hdue : ran.due m.deliveries.length = true :=
    hentered.runUntil_due (m.deliveries_enter _ _) (pollEvent_started _)
  obtain ⟨y, ending, hh, he⟩ := hran.look hsound (Exchange.faithful_new i transport) hdue
  have hclock : (m.dispatchOver (.invocation i) transport).clock = ran.clock := clock_turn _ _
  rw [hrouter, ← hclock] at hh
  exact ⟨y, ending, hh, he⟩

/-! ## If nobody waits -/

section Pending

variable {i : Invocation} {command : String} {path : Path} {transport : Transport}

theorem Pending.attended (h : m.Pending id (.invocation i) transport) (hm : m.Sound)
    (hp : m.router.plan m.registry (.invocation i) = .handle command path program) :
    ∃ d, m.Attended id m.clock (.new i transport) program d := by
  obtain ⟨e, he, hplanned⟩ := delivery?_eq_some_iff.1 h
  have hs : e.stage = .arrived := planned_stage.symm.trans (congrArg Delivery.stage hplanned)
  refine ⟨_, h, hp ▸ underway_arriving transport false m.clock, Nat.le_refl _, fun hw => ?_⟩
  cases hm.first id e .notice he hs hw

theorem Pending.settle_outcome (h : m.Pending id (.invocation i) transport) (hm : m.Reachable)
    (hr : m.Reaches n) : (n.settle.outcome? id).isSome = true := by
  obtain ⟨d, hd, hover⟩ := h.settle_over hm hr
  rw [outcome?, hd]
  exact hover.outcome

end Pending

/-- An invocation that is accepted comes to its outcome once, and from then on the router adds
nothing, or one notice if the handler failed. If somebody waits for it, it is given up only if its
handler sleeps till its time is up. If it is left to the machine, to wait for its first turn while
anything else happens, it is given up only once its time is up. -/
theorem failure_noticed_once {m : Machine ν} (hm : m.Reachable) {i : Invocation} {s : Command ν}
    {action : Action ν} (hs : m.registry.get? i.command = some s) (ho : ∀ g, s.Open i g)
    (ha : s.handler.resolve i.path = some action) (transport : Transport) :
    (∃ y ending, Handled (.new i transport) (action i) (m.router.TooSlow (action i) m.clock
        (m.dispatchOver (.invocation i) transport).clock) y ending
      ∧ (m.dispatchOver (.invocation i) transport).Over m.deliveries.length y ending)
    ∧ ∀ id, m.Pending id (.invocation i) transport → ∀ n, m.Reaches n →
      (n.settle.outcome? id).isSome = true
      ∧ ∀ o, n.Step o → n.outcome? id = none → (o.outcome? id).isSome = true →
        ∃ y ending, Handled (.new i transport) (action i) (m.router.Late m.clock o.clock) y ending
          ∧ o.Over id y ending := by
  have hp : m.router.plan m.registry (.invocation i) = .handle s.name i.path (action i) :=
    Router.plan_of_resolve hs ho ha
  have hx := Exchange.faithful_new i transport
  refine ⟨?_, fun id hpending n hr => ⟨hpending.settle_outcome hm hr,
    fun o hno hnone hsome => ?_⟩⟩
  · obtain ⟨y, ending, hh, he⟩ := dispatchOver_ended hm.sound hp transport
    have hd := hm.reaches (reaches_dispatchOver m (.invocation i) transport)
    exact ⟨y, ending, hh, he.toOver hd.sound (hh.faithful hx)⟩
  · have hn : n.Sound := hr.sound hm.sound
    obtain ⟨d, hd⟩ := hpending.attended hm.sound hp
    rcases Reaches.attended_or_ended hr hm.sound hx hd with ⟨e, he⟩ | ⟨y, ending, clock, -, he⟩
    · cases hno.follows hn he with
      | going ho =>
        rw [ho.outcome_eq_none] at hsome
        cases hsome
      | ended hh ho =>
        rw [(Reaches.extends hr).router] at hh
        exact ⟨_, _, hh, ho.toOver (hno.sound hn) (hh.faithful hx)⟩
    · have := he.outcome_isSome
      rw [hnone] at this
      cases this

/-- A handler that puts its answer off, works for a while and then panics. -/
def stuckProgram : Program Unit :=
  ⟨[.attempt fun _ => .send (.defer true), .sleep 400], .failed (.panic none)⟩

def stuckReport : Command Unit :=
  (Draft.new "report" "").toSpec [] (.single fun _ => stuckProgram)

def reportMachine : Machine Unit :=
  .new (.ofSettings { Settings.default with timeLimit := some 1000 })
    (Registry.empty.append stuckReport)

/-- The handler is in time, so its failure is the panic. The transport takes no edits, but the
notice is one, and nothing else is tried. -/
theorem reportMachine_failure_noticed_once :
    let dispatched := reportMachine.dispatchOver (.invocation (.new "report")) (.without [.edit])
    (∃ y, dispatched.Over 0 y (.failed (.panic none)))
      ∧ (dispatched.flushNotices.deliveries.map fun d => d.exchange.sent)
        = [[.defer true, .edit ⟨Messages.default.failure, true⟩]] := by
  have hs : reportMachine.registry.get? (Invocation.new "report").command = some stuckReport :=
    (Registry.empty_indexed.append rfl).get?_eq_some_iff.2 ⟨List.mem_singleton.2 rfl, rfl⟩
  have ho : ∀ g, stuckReport.Open (.new "report") g := fun g => by
    cases g <;> exact .inl rfl
  obtain ⟨⟨y, ending, hh, hover⟩, -⟩ :=
    failure_noticed_once ⟨_, _, .refl⟩ hs ho rfl (.without [.edit])
  have hquick : ∀ limit, reportMachine.router.timeLimit = some limit →
      Act.duration stuckProgram.acts < limit := by
    rintro _ ⟨⟩
    decide
  refine ⟨⟨y, ?_⟩, rfl⟩
  cases hh.in_time hquick with
  | finished => exact hover
  | refused history h =>
    -- no act of the handler is a call
    have hmem := h.isSuffix.subset List.mem_cons_self
    simp [stuckProgram] at hmem
  | late hl => exact hl.elim

end Machine

end SlashCommands
