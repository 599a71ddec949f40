import SlashCommands.Proofs.TimedHandler

/-!
# Time limits

Whoever dispatches an invocation waits until its handler is over or its time is up, and no longer
(`Machine.dispatchOver_concludes`). Whatever happens to the machine from then on, the handler does
nothing any more, and a notice of its failure goes out when the delay is over
(`Machine.Returns.later`). So a handler that ends in time does what it would do without a limit, and
one that would end later is cut off for good (`Machine.time_limit_cuts_off`).
-/

namespace SlashCommands

variable {ν : Type}

namespace Machine

variable {m n : Machine ν} {id : Nat} {s : Share ν}

/-! ## While nobody looks -/

/-- One thing that may happen to a machine, by itself or from outside, while nobody looks for a
delivery. The clock jumps only when nothing is ready. -/
inductive Passes (id : Nat) (m : Machine ν) : Machine ν → Prop
  | next {n : Machine ν} (h : m.Next n) : Passes id m n
  | post (event : Event) (transport : Transport) : Passes id m (m.postOver event transport)
  | enter (event : Event) (transport : Transport) : Passes id m (m.enter event transport)
  | look {other : Nat} (h : other ≠ id) : Passes id m (m.turn ⟨other, .event⟩)
  | wait (ms : Nat) : Passes id m { m with timers := m.timers ++ [⟨m.clock + ms, none⟩] }
  | addition (a : Addition (Action ν) (Completion ν)) :
    Passes id m { m with queue := m.queue ++ [.addition a] }
  | aside (registry : CommandRegistry ν) (notes : List ν) (calls : List RegistrarCall)
    (logs : List LogEntry) : Passes id m { m with registry, notes, calls, logs }

/-- What may become of a machine while nobody looks for the delivery. -/
abbrev Lives (id : Nat) : Machine ν → Machine ν → Prop :=
  Relation.ReflTransGen (Passes id)

theorem Passes.sound (h : Passes id m n) (hm : m.Sound) : n.Sound := by
  cases h with
  | next h => exact h.sound hm
  | post event transport => exact hm.postOver event transport
  | enter event transport => exact hm.enter event transport
  | look => exact hm.look _
  | wait ms => exact (Step.wait ms).sound hm
  | addition a => exact (Step.addition a).sound hm
  | aside registry notes calls logs => exact hm.of_willRun rfl hm.timely fun task => .rfl

theorem Passes.router (h : Passes id m n) : n.router = m.router := by
  cases h with
  | next h => exact h.evolves.router
  | post => rfl
  | enter event transport => exact (Step.enter event transport).extends.router
  | look => exact (turn_evolves m _).router
  | wait => rfl
  | addition => rfl
  | aside => rfl

/-- What comes from outside leaves the shares of other deliveries, and once a delivery has started
even the registry has no bearing on it. -/
theorem Passes.share (h : Passes id m n) (hm : m.Sound) (hs : m.share? id = some s)
    (hstarted : s.delivery.stage ≠ .arrived) :
    ∃ t, n.share? id = some t ∧ (t = s ∨ s.Step m.router t) := by
  have hlt : id < m.deliveries.length := lt_of_delivery? (share?_eq_some_iff.1 hs).1
  cases h with
  | next h => exact h.share hm hs
  | post event transport =>
    exact ⟨s, (share?_postOver_of_lt hlt event transport).trans hs, .inl rfl⟩
  | enter event transport =>
    refine ⟨s, ?_, .inl rfl⟩
    rw [Machine.enter, share?_turn_of_ne (Nat.ne_of_gt hlt), ← hs]
    have hsame : (m.take event transport).delivery? id = m.delivery? id :=
      congrArg (Option.map _) (List.getElem?_append_left hlt)
    exact congrArg (Option.map _) hsame
  | look hne => exact ⟨s, (share?_turn_of_ne hne).trans hs, .inl rfl⟩
  | wait ms =>
    refine ⟨s, ?_, .inl rfl⟩
    obtain ⟨hd, hc, hr, ht⟩ := share?_eq_some_iff.1 hs
    refine share?_eq_some_iff.2 ⟨hd, hc, hr, ?_⟩
    simp [ht, timersFor, Timer.callFor?]
  | addition a =>
    refine ⟨s, ?_, .inl rfl⟩
    obtain ⟨hd, hc, hr, ht⟩ := share?_eq_some_iff.1 hs
    refine share?_eq_some_iff.2 ⟨hd, hc, ?_, ht⟩
    simp [hr, readyFor, Job.roleFor?]
  | aside registry notes calls logs =>
    obtain ⟨hd, hrest⟩ := share?_eq_some_iff.1 hs
    have hraw := (delivery?_iff_of_started hstarted).1 hd
    exact ⟨s, share?_eq_some_iff.2 ⟨(delivery?_iff_of_started hstarted).2 hraw, hrest⟩, .inl rfl⟩

theorem Lives.sound (h : Lives id m n) (hm : m.Sound) : n.Sound := by
  induction h with
  | refl => exact hm
  | tail _ hp ih => exact hp.sound ih

theorem Lives.router (h : Lives id m n) : n.router = m.router := by
  induction h with
  | refl => rfl
  | tail _ hp ih => exact hp.router.trans ih

/-- What every step of a share keeps, is kept. -/
theorem Lives.share_keeps {P : Share ν → Prop} (h : Lives id m n) (hm : m.Sound)
    (hs : m.share? id = some s) (hstarted : ∀ s, P s → s.delivery.stage ≠ .arrived)
    (hP : ∀ s t, s.Step m.router t → P s → P t) (h0 : P s) :
    ∃ t, n.share? id = some t ∧ P t := by
  induction h with
  | refl => exact ⟨s, hs, h0⟩
  | @tail n o hn hp ih =>
    obtain ⟨t, ht, hPt⟩ := ih
    obtain ⟨u, hu, rfl | hstep⟩ := hp.share (Lives.sound hn hm) ht (hstarted t hPt)
    · exact ⟨u, hu, hPt⟩
    · rw [Lives.router hn] at hstep
      exact ⟨u, hu, hP t u hstep hPt⟩

theorem lives_of_interleaves (h : m.Interleaves n) : Lives id m n := by
  induction h with
  | refl => exact .refl
  | tail _ hn ih => exact ih.tail (.next hn)

/-! ## What is left of a handler -/

/-- What one finds of an invocation whose handler was over at some time. The notice of a failure
goes out when the delay is over, neither earlier nor later. -/
inductive Holds (m : Machine ν) (id since : Nat) (y : Exchange) : Ending → Prop
  | completed {d : Delivery ν} {suggestions : List Choice} (hd : m.deliveries[id]? = some d)
    (ho : d.outcome = some .completed) (hx : d.exchange = y) :
    Holds m id since y (.done suggestions)
  | withheld {d : Delivery ν} {failure : Failure} (hd : m.deliveries[id]? = some d)
    (ho : d.outcome = some .failed) (hx : d.exchange = y)
    (hc : m.clock ≤ since + m.router.noticeDelay) : Holds m id since y (.failed failure)
  | told {d : Delivery ν} {failure : Failure} (hd : m.deliveries[id]? = some d)
    (ho : d.outcome = some .failed) (hx : d.exchange = m.router.noticed y)
    (hc : since + m.router.noticeDelay ≤ m.clock) : Holds m id since y (.failed failure)

theorem holds_of_after {since : Nat} {y : Exchange} {ending : Ending}
    (hs : m.share? id = some s) (h : s.After m.router y since ending) :
    m.Holds id since y ending := by
  obtain ⟨hfound, hc, -⟩ := share?_eq_some_iff.1 hs
  have hd := (delivery?_iff_of_started h.started).1 hfound
  cases h with
  | done hs ho hx => exact .completed hd ho hx
  | failed ho h =>
    cases h with
    | fresh hs hx hsince =>
      refine .withheld hd ho hx ?_
      rw [← hc, hsince]
      exact Nat.le_add_right _ _
    | rested hs hx hle => exact .withheld hd ho hx (hc ▸ hle)
    | told hs hx hle => exact .told hd ho hx (hc ▸ hle)

/-- Dispatching an invocation takes some time and returns the outcome. From then on the handler does
nothing more, and all that follows is the notice of a failure. -/
structure Returns (m : Machine ν) (i : Invocation) (transport : Transport) (elapsed : Nat)
    (y : Exchange) (ending : Ending) : Prop where
  clock : (m.dispatchOver (.invocation i) transport).clock = m.clock + elapsed
  returned : ∃ d, (m.dispatchOver (.invocation i) transport).deliveries[m.deliveries.length]?
      = some d ∧ d.outcome = some ending.outcome ∧ d.exchange = y
  later : ∀ n, Lives m.deliveries.length (m.dispatchOver (.invocation i) transport) n →
    n.Holds m.deliveries.length (m.clock + elapsed) y ending
  flushed : ∀ n, Lives m.deliveries.length (m.dispatchOver (.invocation i) transport) n →
    ∃ d, n.flushNotices.deliveries[m.deliveries.length]? = some d ∧ d.stage = .settled
      ∧ d.exchange = ending.told m.router y

variable {i : Invocation} {transport : Transport} {run : Timeline}

theorem returns_of_concludes (hm : m.Sound)
    (hs : (m.dispatchOver (.invocation i) transport).share? m.deliveries.length = some s)
    (h : s.Concludes m.router run m.clock) :
    ∃ elapsed y ending, run.Leaves m.router.timeLimit elapsed y ending
      ∧ m.Returns i transport elapsed y ending := by
  obtain ⟨elapsed, y, ending, hleaves, hclock, hx, hafter⟩ := h
  obtain ⟨hfound, hc, -⟩ := share?_eq_some_iff.1 hs
  have hd := (delivery?_iff_of_started hafter.started).1 hfound
  have hreaches := reaches_dispatchOver m (.invocation i) transport
  have hrouter : (m.dispatchOver (.invocation i) transport).router = m.router :=
    hreaches.extends.router
  have hkept : ∀ {n : Machine ν},
      Lives m.deliveries.length (m.dispatchOver (.invocation i) transport) n →
        ∃ t, n.share? m.deliveries.length = some t
          ∧ t.After m.router y (m.clock + elapsed) ending :=
    fun hn => hn.share_keeps (hreaches.sound hm) hs (fun _ h => h.started)
      (fun _ _ ht h => h.step (hrouter ▸ ht)) hafter
  refine ⟨elapsed, y, ending, hleaves, hc.symm.trans hclock, ⟨_, hd, hafter.outcome_eq, hx⟩,
    fun n hn => ?_, fun n hn => ?_⟩
  · obtain ⟨t, ht, hover⟩ := hkept hn
    rw [← hrouter, ← hn.router] at hover
    exact holds_of_after ht hover
  · obtain ⟨t, ht, hover⟩ := hkept (hn.trans (lives_of_interleaves (interleaves_runUntil n _)))
    have hfound := (delivery?_iff_of_started hover.started).1 (share?_eq_some_iff.1 ht).1
    have hquiet := (hn.sound (hreaches.sound hm)).flushNotices_quiet hfound
    exact ⟨t.delivery, hfound, hover.settled_of_quiet hquiet⟩

/-! ## While somebody waits -/

section Waiting

variable {router : Router} {start : Nat}

/-- Somebody waits for the outcome of a delivery, of which something is true. -/
structure Waits (router : Router) (id : Nat) (P : Share ν → Prop) (m : Machine ν) : Prop where
  sound : m.Sound
  router : m.router = router
  share : ∃ s, m.share? id = some s ∧ s.delivery.awaited = true ∧ P s

theorem Waits.job (h : m.Waits router id (Share.Handles router start run)) {job : Job ν}
    {queue : List (Job ν)} (hq : m.queue = job :: queue) :
    (({ m with queue } : Machine ν).perform job).Waits router id
      (Share.Handles router start run) := by
  obtain ⟨s, hs, ha, hhandles⟩ := h.share
  refine ⟨h.sound.perform hq, (perform_evolves _ job).router.trans h.router, ?_⟩
  rcases share?_job (show m.queue = [] ++ job :: queue from hq) hs with
    hsame | ⟨left, role, right, hready, hturn⟩
  · exact ⟨s, hsame, ha, hhandles⟩
  · rcases hhandles.turn hready m.notes with hnext | ⟨hunawaited, -⟩
    · refine ⟨_, hturn, (s.delivery.poll_awaited m.notes role).trans ha, ?_⟩
      rw [h.router]
      exact hnext
    · rw [ha] at hunawaited
      cases hunawaited

theorem Waits.tick (h : m.Waits router id (Share.Handles router start run))
    (hg : m.due id = false) (hq : m.queue = []) (ht : m.tick? = some n) :
    n.Waits router id (Share.Handles router start run)
      ∨ n.due id = true ∧ n.Waits router id (Share.Late router start run) := by
  obtain ⟨s, hs, ha, hhandles⟩ := h.share
  have hsound : n.Sound := h.sound.tick ht
  have hrouter : n.router = router := (tick?_evolves ht).router.trans h.router
  obtain ⟨hwoken, hready, hclock, hle⟩ := share?_jump h.sound hq ht hs
  have hdue : s.delivery.isDue s.clock = false := (due_eq hs).symm.trans hg
  rcases hhandles.wake hready hclock hle fun _ => hdue with hnext | hlate
  · exact .inl ⟨hsound, hrouter, _, hwoken, ha, hnext⟩
  · exact .inr ⟨(due_eq hwoken).trans hlate.isDue, hsound, hrouter, _, hwoken, ha, hlate⟩

/-- Whoever waits stops waiting when the handler is over, or when its time is up. -/
theorem Waits.runUntil (h : m.Waits router id (Share.Handles router start run)) :
    (m.runUntil (due id)).Waits router id (Share.Handles router start run)
      ∨ (m.runUntil (due id)).Waits router id (Share.Late router start run) :=
  runWith_stops (fun _ _ _ hm hq => hm.job hq) (fun _ _ hm hg hq ht => hm.tick hg hq ht) _ h

end Waiting

/-! ## Invocations that a handler is run for -/

section Accepted

variable {command : String} {path : Path} {program : Program ν} (hm : m.Sound)
  (hp : m.router.plan m.registry (.invocation i) = .handle command path program)
  (hacts : ∀ a ∈ program.acts, a.Private) (hrun : program.timeline (.new i transport) = run)

include hp hacts hrun

theorem arrives_of_plan (awaited : Bool) (ready : List Role) :
    Share.Arrives m.clock run ⟨m.clock, .arriving (.invocation i) transport
      (m.router.plan m.registry (.invocation i)) awaited, ready, []⟩ :=
  ⟨rfl, ⟨command, path, program, hp, hacts, hrun.symm⟩, rfl, rfl, rfl, rfl, rfl⟩

include hm

/-- Whoever dispatches an invocation has its conclusion as soon as there is one. -/
theorem dispatchOver_concludes
    (hne : ∀ limit, m.router.timeLimit = some limit → run.finish ≠ limit) :
    ∃ s, (m.dispatchOver (.invocation i) transport).share? m.deliveries.length = some s
      ∧ s.Concludes m.router run m.clock := by
  let taken : Share ν :=
    .taken m.clock (.invocation i) transport (m.router.plan m.registry (.invocation i))
  let entered := m.enter (.invocation i) transport
  have hfirst : entered.share? m.deliveries.length
      = some (taken.turn m.router m.notes [] .event) := share?_enter_self hm _ _
  suffices hlook : ∃ s, (entered.runUntil (due m.deliveries.length)).share? m.deliveries.length
      = some s ∧ ∀ history, (s.turn m.router history s.ready .event).Concludes m.router run
        m.clock by
    obtain ⟨s, hs, hconcludes⟩ := hlook
    obtain ⟨history, hlast⟩ := share?_dispatchOver hs
    exact ⟨_, hlast, hconcludes history⟩
  rcases (arrives_of_plan hp hacts hrun true []).turn hne m.notes with hhandles | hconcludes
  · have hwaits : entered.Waits m.router m.deliveries.length
        (Share.Handles m.router m.clock run) :=
      ⟨hm.enter _ _, (Step.enter _ _).extends.router, _, hfirst,
        taken.delivery.poll_awaited m.notes .event, hhandles⟩
    rcases hwaits.runUntil with ⟨-, -, s, hs, -, hhandles⟩ | ⟨-, -, s, hs, -, hlate⟩
    · exact ⟨s, hs, hhandles.concludes (due_or_rests hs)⟩
    · exact ⟨s, hs, hlate.look hne⟩
  · rw [runUntil_of_goal ((due_eq hfirst).trans hconcludes.isDue)]
    exact ⟨_, hfirst, hconcludes.look⟩

/-- A handler that is not over at the very moment its time is up leaves what its timeline has. -/
theorem dispatchOver_returns
    (hne : ∀ limit, m.router.timeLimit = some limit → run.finish ≠ limit) :
    ∃ elapsed y ending, run.Leaves m.router.timeLimit elapsed y ending
      ∧ m.Returns i transport elapsed y ending := by
  obtain ⟨s, hs, hconcludes⟩ := dispatchOver_concludes hm hp hacts hrun hne
  exact returns_of_concludes hm hs hconcludes

/-- If nobody waits for it, it leaves the same in whatever order the machine does its jobs, and has
sent at any time what its timeline sends by then. -/
theorem postOver_leaves (hne : ∀ limit, m.router.timeLimit = some limit → run.finish ≠ limit)
    (hn : (m.postOver (.invocation i) transport).Interleaves n) :
    ∃ elapsed, m.clock + elapsed ≤ n.clock
      ∧ ((∃ d, n.deliveries[m.deliveries.length]? = some d ∧ d.outcome = none
          ∧ n.clock = m.clock + elapsed ∧ elapsed ≤ run.finish
          ∧ (∀ limit, m.router.timeLimit = some limit → elapsed ≤ limit)
          ∧ run.Sends elapsed d.exchange)
        ∨ ∃ y ending, run.Leaves m.router.timeLimit elapsed y ending
          ∧ n.Holds m.deliveries.length (m.clock + elapsed) y ending) := by
  have hrouter : n.router = m.router := hn.evolves.router
  have hsent : run.Sends run.finish run.exchange := hrun ▸ program.timeline_sends rfl
  obtain ⟨s, hs, hsteps⟩ := hn.share (hm.postOver _ _) (share?_postOver_self hm _ _)
  have htimed : s.Timed m.router m.clock run ∧ s.delivery.awaited = false := by
    clear hs
    induction hsteps with
    | refl => exact ⟨.arrived (arrives_of_plan hp hacts hrun false [.event]) rfl, rfl⟩
    | tail _ ht ih => exact ⟨ih.1.step hne ih.2 ht, ht.awaited.trans ih.2⟩
  obtain ⟨hfound, hc, -⟩ := share?_eq_some_iff.1 hs
  rw [← hc]
  rcases htimed.1.open_or_over hsent with
    ⟨ho, elapsed, he, hfinish, hlimit, hy⟩ | ⟨elapsed, y, ending, hleaves, hle, hafter⟩
  · obtain ⟨d, hd, hplanned⟩ := delivery?_eq_some_iff.1 hfound
    rw [← hplanned, Delivery.planned_outcome] at ho
    rw [← hplanned, Delivery.planned_exchange] at hy
    exact ⟨elapsed, Nat.le_of_eq he.symm, .inl ⟨d, hd, ho, he, hfinish, hlimit, hy⟩⟩
  · rw [← hrouter] at hafter
    exact ⟨elapsed, hle, .inr ⟨y, ending, hleaves, holds_of_after hs hafter⟩⟩

/-- One that is over in time, or has no limit, leaves all of it. -/
theorem dispatchOver_finishes
    (hlt : ∀ limit, m.router.timeLimit = some limit → run.finish < limit) :
    m.Returns i transport run.finish run.exchange run.ending := by
  obtain ⟨elapsed, y, ending, hleaves, hreturns⟩ :=
    dispatchOver_returns hm hp hacts hrun fun limit hl => Nat.ne_of_lt (hlt limit hl)
  cases hleaves with
  | finished => exact hreturns
  | cut hl h => exact absurd (hlt _ hl) (Nat.not_lt.2 (Nat.le_of_lt h))

end Accepted

/-- A handler that ends before its time is up does what it would do without a limit. One that would
end later is given up when its time is up, with all calls made that it makes earlier and none that
it makes later. -/
theorem time_limit_cuts_off {s : Command ν} {action : Action ν} {limit : Nat} (hm : m.Reachable)
    (hs : m.registry.get? i.command = some s) (ho : ∀ g, s.Open i g)
    (ha : s.handler.resolve i.path = some action) (hp : ∀ a ∈ (action i).acts, a.Private)
    (hl : m.router.timeLimit = some limit) (transport : Transport)
    (hrun : (action i).timeline (.new i transport) = run) :
    run.Sends run.finish run.exchange
      ∧ (∀ m' : Machine ν, m'.Reachable → m'.router = { m.router with timeLimit := none } →
        m'.registry.get? i.command = some s →
          m'.Returns i transport run.finish run.exchange run.ending)
      ∧ (run.finish < limit → m.Returns i transport run.finish run.exchange run.ending)
      ∧ (limit < run.finish → ∃ y, run.Sends limit y
        ∧ m.Returns i transport limit y (.failed (.timeout limit))) := by
  have hplan : m.router.plan m.registry (.invocation i) = .handle s.name i.path (action i) :=
    Router.plan_of_resolve hs ho ha
  have honly : ∀ other, m.router.timeLimit = some other → other = limit := fun other h =>
    Option.some.inj (h.symm.trans hl)
  refine ⟨hrun ▸ (action i).timeline_sends rfl, fun m' hm' hr' hs' => ?_, fun hlt => ?_,
    fun hlt => ?_⟩
  · have hplan' : m'.router.plan m'.registry (.invocation i) = .handle s.name i.path (action i) :=
      Router.plan_of_resolve hs' ho ha
    have hfree : m'.router.timeLimit = none := congrArg Router.timeLimit hr'
    exact dispatchOver_finishes hm'.sound hplan' hp hrun fun other h => by
      rw [hfree] at h
      cases h
  · exact dispatchOver_finishes hm.sound hplan hp hrun fun other h => honly other h ▸ hlt
  · obtain ⟨elapsed, y, ending, hleaves, hreturns⟩ :=
      dispatchOver_returns hm.sound hplan hp hrun fun other h => honly other h ▸ Nat.ne_of_gt hlt
    cases hleaves with
    | finished h => exact absurd (h limit hl) (Nat.not_lt.2 (Nat.le_of_lt hlt))
    | cut h _ hy =>
      obtain rfl := honly _ h
      exact ⟨y, hy, hreturns⟩

/-- Puts an answer off, gives a part of it and later the rest. -/
def slowProgram : Program Unit :=
  ⟨[.call fun _ => .send (.defer true), .sleep 50, .call fun _ => .send (.edit ⟨"some", true⟩),
    .sleep 100, .call fun _ => .send (.edit ⟨"all", true⟩)], .done []⟩

def slowReport : Command Unit :=
  (Draft.new "report" "").toSpec [] (.single fun _ => slowProgram)

def slowMachine (timeLimit : Option Nat) : Machine Unit :=
  .new ⟨20, timeLimit, .default⟩ (Registry.empty.append slowReport)

/-- The rest comes too late for a limit of 100, but not for one of 200 or for none. -/
theorem slowMachine_time_limit_cuts_off :
    (∃ y, (slowMachine (some 200)).Returns (.new "report") (.without []) 150 y (.done [])
        ∧ (slowMachine none).Returns (.new "report") (.without []) 150 y (.done []))
      ∧ (∃ y, (slowMachine (some 100)).Returns (.new "report") (.without []) 100 y
        (.failed (.timeout 100)))
      ∧ let dispatched :=
          (slowMachine (some 100)).dispatchOver (.invocation (.new "report")) (.without [])
        (dispatched.deliveries.map fun d => d.exchange.sent)
            = [[.defer true, .edit ⟨"some", true⟩]]
          ∧ (dispatched.flushNotices.clock,
            dispatched.flushNotices.deliveries.map fun d => d.exchange.sent)
            = (120, [[.defer true, .edit ⟨"some", true⟩,
              .followUp ⟨Messages.default.failure, true⟩]]) := by
  have hs : ∀ timeLimit, (slowMachine timeLimit).registry.get? (Invocation.new "report").command
      = some slowReport := fun _ =>
    (Registry.empty_indexed.append rfl).get?_eq_some_iff.2 ⟨List.mem_singleton.2 rfl, rfl⟩
  have ho : ∀ g, slowReport.Open (.new "report") g := fun g => by
    cases g <;> exact .inl rfl
  have hp : ∀ a ∈ slowProgram.acts, a.Private := by
    simp [slowProgram, Act.Private]
  obtain ⟨-, hfree, hintime, -⟩ := time_limit_cuts_off (m := slowMachine (some 200))
    ⟨_, _, .refl⟩ (hs _) ho rfl hp rfl (.without []) rfl
  obtain ⟨-, -, -, hlate⟩ := time_limit_cuts_off (m := slowMachine (some 100))
    ⟨_, _, .refl⟩ (hs _) ho rfl hp rfl (.without []) rfl
  obtain ⟨y, -, hcut⟩ := hlate (by decide)
  exact ⟨⟨_, hintime (by decide), hfree _ ⟨_, _, .refl⟩ rfl (hs _)⟩, ⟨y, hcut⟩, rfl, rfl⟩

end Machine

end SlashCommands
