import SlashCommands.Proofs.Foretold

/-!
# The course of a delivery

From the arrival of its event to its end, the share of a private delivery takes one course
(`Share.Course`), whoever waits for the outcome and whatever else runs on the machine: its handler
is at work, asleep, or late, and then over. Every step keeps the promise of the plan
(`Share.Course.step`), unless the handler wakes up at the very moment its time is up. Whoever
dispatches an event and waits for the notices has what was promised
(`Machine.dispatchOver_promise`).
-/

namespace SlashCommands

variable {ν : Type}

/-! ## The course of a share -/

section Course

variable (router : Router) (promise : Option Outcome × Exchange) (start : Nat)

/-- A handler is to go on at some time after its start. -/
structure Delivery.Runs (time : Nat) (rest : List (Act ν)) (ending : Ending) (d : Delivery ν) :
    Prop where
  stage : d.stage = .running rest ending
  program : d.plan.program?.isSome = true
  deadline : d.deadline = router.timeLimit.map (start + ·)
  acts : ∀ a ∈ rest, a.Private
  promise : d.plan.closing router (unlessLate router.timeLimit time d.exchange
    (foretell router.timeLimit ending time d.exchange rest)) = promise
  untied : ∀ limit, router.timeLimit = some limit → limit ∉ time :: Act.wakes time rest

/-- How far a delivery has come that arrived at some time and keeps its promise. -/
inductive Share.Course (s : Share ν) : Prop
  | arrived (hs : s.delivery.stage = .arrived) (hd : s.delivery.deadline = none)
    (hc : s.clock = start) (hr : s.ready = [.event]) (ht : s.timers = [])
    (hacts : s.delivery.plan.Private) (hu : s.delivery.plan.Untied router)
    (hp : s.delivery.plan.promise router s.delivery.exchange = promise)
  | working {time : Nat} {rest : List (Act ν)} {ending : Ending}
    (h : s.delivery.Runs router promise start time rest ending)
    (hl : ∀ limit, router.timeLimit = some limit → time < limit) (hc : s.clock = start + time)
    (hr : s.ready = [.handler]) (ht : s.timers = Delivery.watch router start)
  | asleep {time : Nat} {rest : List (Act ν)} {ending : Ending}
    (h : s.delivery.Runs router promise start time rest ending)
    (hl : ∀ limit, router.timeLimit = some limit → s.clock < start + limit) (hr : s.ready = [])
    (ht : s.timers = Delivery.watch router start ++ [(start + time, .handler)])
  | late {time limit : Nat} {rest : List (Act ν)} {ending : Ending}
    (h : s.delivery.Runs router promise start time rest ending)
    (hlimit : router.timeLimit = some limit) (hl : limit ≤ time) (hc : s.clock = start + limit)
    (hr : s.ready = [.event])
  | ended {ending : Ending} (hs : s.delivery.stage = .ended ending)
    (hprogram : s.delivery.plan.program?.isSome = true)
    (hp : s.delivery.plan.closing router (s.delivery.exchange, ending) = promise)
  | concluded (h : s.delivery.ComesTo router promise)

end Course

namespace Share

variable {router : Router} {promise : Option Outcome × Exchange} {start : Nat} {s t : Share ν}

theorem turn_of_poll {history : List ν} {role : Role} {d : Delivery ν} {e : Effects ν}
    (h : s.delivery.poll router s.clock history role = (d, e)) (others : List Role) :
    s.turn router history others role = { s with
      delivery := d
      ready := others ++ e.ready
      timers := s.timers.filter (fun timer => d.stage.heeds timer.2) ++ e.timers } := by
  rw [turn, h]

/-- The first turn of an event's own task. -/
theorem course_of_arrived (hs : s.delivery.stage = .arrived) (hd : s.delivery.deadline = none)
    (hc : s.clock = start) (ht : s.timers = []) (hacts : s.delivery.plan.Private)
    (hu : s.delivery.plan.Untied router)
    (hp : s.delivery.plan.promise router s.delivery.exchange = promise) (history : List ν) :
    (s.turn router history [] .event).Course router promise start := by
  have hpoll : s.delivery.poll router s.clock history .event
      = s.delivery.receive router s.clock := by
    rw [Delivery.poll, Delivery.pollEvent, hs]
  rcases hprogram : s.delivery.plan.program? with _ | program
  · have hover := Delivery.receive_comesTo hprogram router s.clock
    rw [← hpoll, hp] at hover
    exact .concluded hover
  have hsome : s.delivery.plan.program?.isSome = true := by rw [hprogram]; rfl
  rw [Delivery.receive_of_program hprogram] at hpoll
  rw [Plan.promise_of_program hprogram] at hp
  by_cases hzero : router.timeLimit = some 0
  · have hover := Delivery.conclude_comesTo hsome router (.failed (.timeout 0))
    rw [Delivery.start_of_no_time hzero] at hpoll
    rw [hzero, unlessLate_of_late (Nat.le_refl 0)] at hp
    rw [← hpoll, hp] at hover
    exact .concluded hover
  · have hwakes : s.delivery.plan.wakes = Act.wakes 0 program.acts := by
      rw [Plan.wakes, hprogram]
      rfl
    have hpos : ∀ limit, router.timeLimit = some limit → 0 < limit := fun limit hlimit =>
      Nat.pos_of_ne_zero fun he => hzero (he ▸ hlimit)
    rw [Delivery.start_of_time hzero hd] at hpoll
    rw [turn_of_poll hpoll, hc, ht]
    have hruns : Delivery.Runs router promise start 0 program.acts program.ending { s.delivery with
        stage := .running program.acts program.ending
        deadline := router.timeLimit.map (start + ·) } := by
      refine ⟨rfl, hsome, rfl, hacts program hprogram, hp, fun limit hlimit hmem => ?_⟩
      rcases List.mem_cons.1 hmem with rfl | hmem
      · exact hzero hlimit
      · exact hu limit hlimit (hwakes ▸ hmem)
    exact .working hruns hpos rfl rfl (List.nil_append _)

/-- Who comes to look when the handler is over, concludes. -/
theorem comesTo_of_ended {ending : Ending} (hs : s.delivery.stage = .ended ending)
    (hprogram : s.delivery.plan.program?.isSome = true)
    (hp : s.delivery.plan.closing router (s.delivery.exchange, ending) = promise)
    (history : List ν) (others : List Role) :
    (s.turn router history others .event).delivery.ComesTo router promise := by
  have hpoll : s.delivery.poll router s.clock history .event = s.delivery.conclude ending := by
    rw [Delivery.poll, Delivery.pollEvent, hs]
  rw [turn, hpoll, ← hp]
  exact Delivery.conclude_comesTo hprogram router ending

theorem course_of_ended {ending : Ending} (hs : s.delivery.stage = .ended ending)
    (hprogram : s.delivery.plan.program?.isSome = true)
    (hp : s.delivery.plan.closing router (s.delivery.exchange, ending) = promise)
    (history : List ν) (others : List Role) (role : Role) :
    (s.turn router history others role).Course router promise start := by
  have hsame (hpoll : s.delivery.poll router s.clock history role = (s.delivery, {})) :
      (s.turn router history others role).Course router promise start := by
    rw [turn_of_poll hpoll]
    exact .ended hs hprogram hp
  cases role with
  | event => exact .concluded (comesTo_of_ended hs hprogram hp history others)
  | handler => exact hsame (Delivery.poll_of_unheeded (by rw [hs]; rfl) _ _ _)
  | notice => exact hsame (Delivery.poll_of_unheeded (by rw [hs]; rfl) _ _ _)

section Runs

variable {time : Nat} {rest : List (Act ν)} {ending : Ending}

theorem isLate_iff (h : s.delivery.Runs router promise start time rest ending) :
    s.delivery.isLate s.clock = true
      ↔ ∃ limit, router.timeLimit = some limit ∧ start + limit ≤ s.clock := by
  rw [Delivery.isLate, h.deadline]
  rcases router.timeLimit with _ | limit
  · simp
  · simp

/-- Who comes to look when the time is up gives the handler up. -/
theorem comesTo_of_late (h : s.delivery.Runs router promise start time rest ending) {limit : Nat}
    (hlimit : router.timeLimit = some limit) (hl : limit ≤ time) (hc : s.clock = start + limit)
    (history : List ν) (others : List Role) :
    (s.turn router history others .event).delivery.ComesTo router promise := by
  have hpoll : s.delivery.poll router s.clock history .event
      = s.delivery.conclude (.failed (.timeout limit)) := by
    have hlate := (isLate_iff h).2 ⟨limit, hlimit, Nat.le_of_eq hc.symm⟩
    rw [Delivery.poll, Delivery.pollEvent, h.stage]
    dsimp only
    rw [if_pos hlate, hlimit]
    rfl
  have hp := h.promise
  rw [hlimit, unlessLate_of_late hl] at hp
  rw [turn, hpoll, ← hp]
  exact Delivery.conclude_comesTo h.program router _

/-- The handler goes on until it sleeps or ends. -/
theorem course_of_working (h : s.delivery.Runs router promise start time rest ending)
    (hl : ∀ limit, router.timeLimit = some limit → time < limit) (hc : s.clock = start + time)
    (ht : s.timers = Delivery.watch router start) (history : List ν) :
    (s.turn router history [] .handler).Course router promise start := by
  have hburst : (Burst.run history ending s.delivery.exchange [] rest).Foretold router.timeLimit
      ending time s.delivery.exchange rest := Burst.run_foretold history rest _ [] h.acts
  have hsuffix : ∀ {ms : Nat} {later : List (Act ν)}, (Burst.run history ending s.delivery.exchange
      [] rest).pause = .asleep ms later → later <:+ rest := Burst.rest_isSuffix rest
  have hp := h.promise
  rw [unlessLate_of_lt hl] at hp
  have hpoll : s.delivery.poll router s.clock history .handler
      = s.delivery.pollHandler s.clock history := rfl
  rw [Delivery.pollHandler, h.stage] at hpoll
  dsimp only at hpoll
  generalize Burst.run history ending s.delivery.exchange [] rest = burst at hburst hsuffix hpoll
  cases hburst with
  | @asleep y notes ms later he hw =>
    rw [turn_of_poll hpoll]
    have hruns : Delivery.Runs router promise start (time + ms) later ending { s.delivery with
        exchange := y
        stage := .running later ending } := by
      refine ⟨rfl, h.program, h.deadline, fun a ha => ?_, he ▸ hp, fun limit hlimit hmem => ?_⟩
      · exact h.acts a ((hsuffix rfl).subset ha)
      · exact h.untied limit hlimit (List.mem_cons_of_mem _ (hw.subset hmem))
    refine .asleep hruns (fun limit hlimit => ?_) rfl ?_
    · have := hl limit hlimit
      dsimp only
      omega
    · have hkept : (Delivery.watch router start).filter
          (fun timer => (Stage.running later ending).heeds timer.2)
            = Delivery.watch router start := by
        rw [Delivery.watch]
        rcases router.timeLimit with _ | limit <;> rfl
      rw [ht, hkept, hc, Nat.add_assoc]
  | ended he =>
    rw [turn_of_poll hpoll]
    rw [he] at hp
    exact .ended rfl h.program hp

/-- While the handler sleeps, its own timer, or the one that watches over it, or none of the two
goes off. -/
theorem course_of_asleep (h : s.delivery.Runs router promise start time rest ending)
    (hr : s.ready = [])
    (ht : s.timers = Delivery.watch router start ++ [(start + time, .handler)]) {next : Nat}
    (hle : ∀ timer ∈ s.timers, next ≤ timer.1) :
    (s.wake next).Course router promise start := by
  have htime : next ≤ start + time := hle (start + time, .handler) (by simp [ht])
  have hlimits : ∀ limit, router.timeLimit = some limit → next ≤ start + limit ∧ limit ≠ time :=
    fun limit hlimit => by
      refine ⟨hle (start + limit, .event) (by simp [ht, Delivery.watch, hlimit]), ?_⟩
      rintro rfl
      exact h.untied limit hlimit List.mem_cons_self
  by_cases hwake : next = start + time
  · subst hwake
    refine .working (s := s.wake (start + time)) h (fun limit hlimit => ?_) rfl ?_ ?_
    · have := hlimits limit hlimit
      omega
    · rcases hlimit : router.timeLimit with _ | limit
      · simp [wake, hr, ht, Delivery.watch, hlimit]
      · simp [wake, hr, ht, Delivery.watch, hlimit, (hlimits limit hlimit).2]
    · rcases hlimit : router.timeLimit with _ | limit
      · simp [wake, ht, Delivery.watch, hlimit]
      · simp [wake, ht, Delivery.watch, hlimit, (hlimits limit hlimit).2]
  by_cases hlate : ∃ limit, router.timeLimit = some limit ∧ next = start + limit
  · obtain ⟨limit, hlimit, rfl⟩ := hlate
    refine .late (s := s.wake (start + limit)) h hlimit (by omega) rfl ?_
    have hne : ¬ time = limit := fun he => (hlimits limit hlimit).2 he.symm
    simp [wake, hr, ht, Delivery.watch, hlimit, hne]
  · have hnone : ∀ timer ∈ s.timers, timer.1 ≠ next := by
      intro timer hmem he
      simp only [ht, Delivery.watch, List.mem_append, Option.mem_toList, Option.map_eq_some_iff,
        List.mem_singleton] at hmem
      rcases hmem with ⟨limit, hlimit, rfl⟩ | rfl
      · exact hlate ⟨limit, hlimit, he.symm⟩
      · exact hwake he.symm
    rw [wake_of_not_due hnone]
    refine .asleep h (fun limit hlimit => ?_) hr ht
    exact Nat.lt_of_le_of_ne (hlimits limit hlimit).1 fun he => hlate ⟨limit, hlimit, he⟩

end Runs

/-! ## All that may happen -/

/-- What is over stays so, and comes to the same. -/
theorem Step.comesTo (hs : s.Step router t) (h : s.delivery.ComesTo router promise) :
    t.delivery.ComesTo router promise := by
  cases hs with
  | turn history => exact h.poll history _
  | wake => exact h

theorem Steps.comesTo (hs : s.Steps router t) (h : s.delivery.ComesTo router promise) :
    t.delivery.ComesTo router promise := by
  induction hs with
  | refl => exact h
  | tail _ hstep ih => exact hstep.comesTo ih

/-- A task that has its turn and is the only one that is ready. -/
theorem sole_of_ready {before after : List Role} {role sole : Role}
    (h : s.ready = before ++ role :: after) (hr : s.ready = [sole]) :
    role = sole ∧ before ++ after = [] := by
  rw [hr] at h
  rcases before with _ | ⟨first, before⟩
  · cases h
    exact ⟨rfl, rfl⟩
  · simp at h

theorem Course.step (h : s.Course router promise start) (hs : s.Step router t) :
    t.Course router promise start := by
  cases hs with
  | @turn history before after role hready =>
    cases h with
    | arrived hs hd hc hr ht hacts hu hp =>
      obtain ⟨rfl, hothers⟩ := sole_of_ready hready hr
      rw [hothers]
      exact course_of_arrived hs hd hc ht hacts hu hp history
    | working h hl hc hr ht =>
      obtain ⟨rfl, hothers⟩ := sole_of_ready hready hr
      rw [hothers]
      exact course_of_working h hl hc ht history
    | asleep h hl hr ht => simp [hr] at hready
    | late h hlimit hl hc hr =>
      obtain ⟨rfl, hothers⟩ := sole_of_ready hready hr
      exact .concluded (comesTo_of_late h hlimit hl hc history (before ++ after))
    | ended hs hprogram hp => exact course_of_ended hs hprogram hp history _ role
    | concluded h => exact .concluded (h.poll history role)
  | @wake time hready hc hle =>
    cases h with
    | arrived hs hd hc hr ht hacts hu hp => simp [hr] at hready
    | working h hl hc hr ht => simp [hr] at hready
    | asleep h hl hr ht => exact course_of_asleep h hr ht hle
    | late h hlimit hl hc hr => simp [hr] at hready
    | ended hs hprogram hp => exact .ended hs hprogram hp
    | concluded h => exact .concluded h

theorem Steps.course (h : s.Steps router t) (hs : s.Course router promise start) :
    t.Course router promise start := by
  induction h with
  | refl => exact hs
  | tail _ hstep ih => exact ih.step hstep

/-- What is settled has kept its promise. -/
theorem Course.kept (h : s.Course router promise start) (hs : s.delivery.stage = .settled) :
    (s.delivery.outcome, s.delivery.exchange) = promise := by
  cases h with
  | arrived h => simp [h] at hs
  | working h => simp [h.stage] at hs
  | asleep h => simp [h.stage] at hs
  | late h => simp [h.stage] at hs
  | ended h => simp [h] at hs
  | concluded h => exact (Delivery.finish_of_settled hs).symm.trans h.finish

/-- Who looks for the outcome when it is due, or when nothing else can happen, has it. -/
theorem Course.look (h : s.Course router promise start)
    (hdue : s.delivery.isDue s.clock = true ∨ s.ready = [] ∧ s.timers = []) (history : List ν)
    (others : List Role) :
    (s.turn router history others .event).delivery.ComesTo router promise := by
  cases h with
  | arrived hs hd hc hr =>
    rcases hdue with hdue | ⟨hready, -⟩
    · simp [Delivery.isDue, hs] at hdue
    · simp [hr] at hready
  | working h hl hc hr =>
    rcases hdue with hdue | ⟨hready, -⟩
    · rw [Delivery.isDue, h.stage] at hdue
      obtain ⟨limit, hlimit, hle⟩ := (isLate_iff h).1 hdue
      have := hl limit hlimit
      omega
    · simp [hr] at hready
  | asleep h hl hr ht =>
    rcases hdue with hdue | ⟨-, htimers⟩
    · rw [Delivery.isDue, h.stage] at hdue
      obtain ⟨limit, hlimit, hle⟩ := (isLate_iff h).1 hdue
      exact absurd hle (Nat.not_le.2 (hl limit hlimit))
    · simp [ht] at htimers
  | late h hlimit hl hc hr => exact comesTo_of_late h hlimit hl hc history others
  | ended hs hprogram hp => exact comesTo_of_ended hs hprogram hp history others
  | concluded h => exact h.poll history .event

end Share

/-! ## Events that somebody waits for -/

/-- The share of an event that somebody waits for, before its first turn. -/
def Share.taken (clock : Nat) (event : Event) (transport : Transport) (plan : Plan ν) : Share ν :=
  ⟨clock, .arriving event transport plan true, [], []⟩

namespace Machine

variable {m : Machine ν} {id : Nat} {s : Share ν} {event : Event} {transport : Transport}

/-- Whoever waits for an event gives it its first turn. -/
theorem share?_enter_self (hm : m.Sound) (event : Event) (transport : Transport) :
    (m.enter event transport).share? m.deliveries.length
      = some ((Share.taken m.clock event transport (m.router.plan m.registry event)).turn m.router
        m.notes [] .event) :=
  share?_turn_self (share?_eq_some_iff.2 ⟨m.delivery?_take event transport, rfl,
    (readyFor_eq_nil hm (Nat.le_refl _)).symm, (timersFor_eq_nil hm (Nat.le_refl _)).symm⟩) _

theorem due_eq (hs : m.share? id = some s) : m.due id = s.delivery.isDue s.clock := by
  obtain ⟨hd, hc, -⟩ := share?_eq_some_iff.1 hs
  rw [hc, due_eq_of_delivery? hd]

/-- Whoever waits for a delivery stops where there is an outcome, or nothing left that could
happen. -/
theorem due_or_rests (hs : (m.runUntil (due id)).share? id = some s) :
    s.delivery.isDue s.clock = true ∨ s.ready = [] ∧ s.timers = [] := by
  obtain ⟨-, -, hready, htimers⟩ := share?_eq_some_iff.1 hs
  rcases runUntil_rests m (due id) with hg | ⟨hq, ht⟩
  · exact .inl ((due_eq hs).symm.trans hg)
  · refine .inr ⟨?_, ?_⟩
    · rw [hready, readyFor, hq, List.filterMap_nil]
    · rw [htimers, timersFor, tick?_eq_none_iff.1 ht, List.filterMap_nil]

/-- At last, whoever waits looks for the outcome. -/
theorem share?_dispatchOver
    (hs : ((m.enter event transport).runUntil (due m.deliveries.length)).share? m.deliveries.length
      = some s) :
    ∃ history, (m.dispatchOver event transport).share? m.deliveries.length
      = some (s.turn m.router history s.ready .event) := by
  let ran := (m.enter event transport).runUntil (due m.deliveries.length)
  have hrouter : ran.router = m.router :=
    (runUntil_evolves _ _).router.trans (Step.enter event transport).extends.router
  rw [← hrouter]
  exact ⟨ran.notes, share?_turn_self hs .event⟩

/-- Whoever dispatches an event has its outcome. -/
theorem dispatchOver_comesTo (hm : m.Sound) (hp : (m.router.plan m.registry event).Private)
    (hu : (m.router.plan m.registry event).Untied m.router) (transport : Transport) :
    ∃ s, (m.dispatchOver event transport).share? m.deliveries.length = some s
      ∧ s.delivery.ComesTo m.router
        ((m.router.plan m.registry event).promise m.router (.new event.subject transport)) := by
  let taken := Share.taken m.clock event transport (m.router.plan m.registry event)
  have hcourse : (taken.turn m.router m.notes [] .event).Course m.router
      ((m.router.plan m.registry event).promise m.router (.new event.subject transport))
      m.clock :=
    Share.course_of_arrived (s := taken) rfl rfl rfl rfl hp hu rfl m.notes
  obtain ⟨s, hs, hsteps⟩ := (interleaves_runUntil (m.enter event transport) _).share
    (hm.enter event transport) (share?_enter_self hm event transport)
  rw [(Step.enter event transport).extends.router] at hsteps
  obtain ⟨history, hlast⟩ := share?_dispatchOver hs
  exact ⟨_, hlast, (Share.Steps.course hsteps hcourse).look (due_or_rests hs) history s.ready⟩

/-- Whoever waits for the notices has the end of what is over. -/
theorem flushNotices_of_comesTo {result : Option Outcome × Exchange} (hm : m.Sound)
    (hs : m.share? id = some s) (h : s.delivery.ComesTo m.router result) :
    ∃ d, m.flushNotices.deliveries[id]? = some d ∧ d.stage = .settled
      ∧ (d.outcome, d.exchange) = result := by
  obtain ⟨t, ht, hsteps⟩ := (interleaves_runUntil m fun m => !m.deliveries.any
    Delivery.isNotifying).share hm hs
  obtain ⟨hover, hfinish⟩ := Share.Steps.comesTo hsteps h
  have hd : m.flushNotices.deliveries[id]? = some t.delivery :=
    (delivery?_iff_of_started hover.started).1 (share?_eq_some_iff.1 ht).1
  have hsettled := hover.settled_of_quiet (hm.flushNotices_quiet hd)
  exact ⟨t.delivery, hd, hsettled, (Delivery.finish_of_settled hsettled).symm.trans hfinish⟩

/-- Whoever dispatches an event and waits for the notices, has what was promised. -/
theorem dispatchOver_promise (hm : m.Reachable) (hp : (m.router.plan m.registry event).Private)
    (hu : (m.router.plan m.registry event).Untied m.router) (transport : Transport) :
    ∃ d, (m.dispatchOver event transport).flushNotices.deliveries[m.deliveries.length]? = some d
      ∧ d.stage = .settled
      ∧ (d.outcome, d.exchange) = (m.router.plan m.registry event).promise m.router
        (.new event.subject transport) := by
  have hreaches := reaches_dispatchOver m event transport
  obtain ⟨s, hs, hover⟩ := dispatchOver_comesTo hm.sound hp hu transport
  have hrouter : (m.dispatchOver event transport).router = m.router := hreaches.extends.router
  refine flushNotices_of_comesTo (hm.reaches hreaches).sound hs ?_
  rw [hrouter]
  exact hover

end Machine

end SlashCommands
