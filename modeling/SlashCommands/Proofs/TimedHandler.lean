import SlashCommands.Proofs.HandlerTimeline
import SlashCommands.Proofs.NoticeClock

/-!
# Handlers on the clock

The share of an invocation that a private handler is run for. In time, the handler is at work,
asleep or over (`Share.Handles`); when its time is up, it is given up before or after what it does
at that very moment (`Share.Late`). Then there is nothing but the notice of a failure. Every step
leads from one of these to the next (`Share.Timed.step`), and what the handler leaves is what its
timeline has up to then (`Timeline.Leaves`).
-/

namespace SlashCommands

variable {ν : Type}

namespace Share

variable {router : Router} {start : Nat} {run : Timeline} {s : Share ν}

/-! ## When the handler is over -/

/-- The delivery was concluded just now. -/
structure Concludes (router : Router) (run : Timeline) (start : Nat) (s : Share ν) : Prop where
  left : ∃ elapsed y ending, run.Leaves router.timeLimit elapsed y ending
    ∧ s.clock = start + elapsed ∧ s.delivery.exchange = y
    ∧ s.After router y (start + elapsed) ending

/-- The end of a handler is concluded at once. -/
theorem concludes_of_poll {command : String} {path : Path} {program : Program ν} {elapsed : Nat}
    {ending : Ending} {history : List ν} {others : List Role}
    (hplan : s.delivery.plan = .handle command path program)
    (hpoll : s.delivery.poll router s.clock history .event = s.delivery.conclude ending)
    (hleaves : run.Leaves router.timeLimit elapsed s.delivery.exchange ending)
    (hc : s.clock = start + elapsed) (ho : others.count .notice = 0)
    (ht : ∀ timer ∈ s.timers, timer.2 ≠ .notice) :
    (s.turn router history others .event).Concludes router run start := by
  rw [Delivery.conclude, hplan] at hpoll
  cases ending with
  | done suggestions =>
    rw [turn_of_poll hpoll]
    exact ⟨_, _, _, hleaves, hc, rfl, .done rfl rfl rfl⟩
  | failed failure =>
    rw [turn_of_poll hpoll]
    refine ⟨_, _, _, hleaves, hc, rfl, .failed rfl (.fresh rfl rfl hc ?_ fun timer hm => ?_)⟩
    · rw [List.count_append, ho]
      rfl
    · exact ht timer (mem_of_mem_kept hm)

/-! ## Before it is over -/

/-- A handler is to go on at some time along its timeline. -/
structure Proceeds (router : Router) (start : Nat) (run : Timeline) (time : Nat)
    (rest : List (Act ν)) (ending : Ending) (made : List (Nat × Message)) (s : Share ν) :
    Prop where
  stage : s.delivery.stage = .running rest ending
  plan : ∃ command path program, s.delivery.plan = .handle command path program
  outcome : s.delivery.outcome = none
  deadline : s.delivery.deadline = router.timeLimit.map (start + ·)
  acts : ∀ a ∈ rest, a.Private
  run : run = (Timeline.ofActs ending time s.delivery.exchange rest).after made
  sent : s.delivery.exchange.sent = made.map Prod.snd
  begun : start ≤ s.clock
  past : ∀ c ∈ made, start + c.1 ≤ s.clock

/-- The handler is not over, or is so just now, and its time is not up. -/
inductive Handles (router : Router) (start : Nat) (run : Timeline) (s : Share ν) : Prop
  | working {time : Nat} {rest : List (Act ν)} {ending : Ending} {made : List (Nat × Message)}
    (h : s.Proceeds router start run time rest ending made)
    (hl : ∀ limit, router.timeLimit = some limit → time < limit) (hc : s.clock = start + time)
    (hr : s.ready = [.handler]) (ht : s.timers = Delivery.watch router start)
  | asleep {time : Nat} {rest : List (Act ν)} {ending : Ending} {made : List (Nat × Message)}
    (h : s.Proceeds router start run time rest ending made)
    (hl : ∀ limit, router.timeLimit = some limit → s.clock < start + limit)
    (hc : s.clock ≤ start + time) (hr : s.ready = [])
    (ht : s.timers = Delivery.watch router start ++ [(start + time, .handler)])
  | ended (hs : s.delivery.stage = .ended run.ending) (hx : s.delivery.exchange = run.exchange)
    (hp : ∃ command path program, s.delivery.plan = .handle command path program)
    (ho : s.delivery.outcome = none)
    (hl : ∀ limit, router.timeLimit = some limit → run.finish < limit)
    (hc : s.clock = start + run.finish)
    (hr : s.ready = if s.delivery.awaited then [] else [.event])
    (ht : ∀ timer ∈ s.timers, timer.2 ≠ .notice)

/-- The time is up and nobody has looked since. The handler may have a turn first if it wakes up at
that very moment. -/
inductive Late (router : Router) (start : Nat) (run : Timeline) (s : Share ν) : Prop
  | alone {time limit : Nat} {rest : List (Act ν)} {ending : Ending} {made : List (Nat × Message)}
    (h : s.Proceeds router start run time rest ending made)
    (hlimit : router.timeLimit = some limit) (hlt : limit < time) (hc : s.clock = start + limit)
    (hr : s.ready = [.event]) (ht : ∀ timer ∈ s.timers, timer.2 ≠ .notice)
  | tied {limit : Nat} {rest : List (Act ν)} {ending : Ending} {made : List (Nat × Message)}
    (h : s.Proceeds router start run limit rest ending made)
    (hlimit : router.timeLimit = some limit) (hc : s.clock = start + limit)
    (hr : s.ready = [.event, .handler]) (ht : ∀ timer ∈ s.timers, timer.2 ≠ .notice)

/-- An invocation that has just come. -/
structure Arrives (start : Nat) (run : Timeline) (s : Share ν) : Prop where
  stage : s.delivery.stage = .arrived
  plan : ∃ command path program, s.delivery.plan = .handle command path program
    ∧ (∀ a ∈ program.acts, a.Private) ∧ run = program.timeline s.delivery.exchange
  outcome : s.delivery.outcome = none
  deadline : s.delivery.deadline = none
  sent : s.delivery.exchange.sent = []
  clock : s.clock = start
  timers : s.timers = []

theorem watch_role : ∀ timer ∈ Delivery.watch router start, timer.2 = .event := by
  intro timer hm
  obtain ⟨limit, -, rfl⟩ :
      ∃ limit, router.timeLimit = some limit ∧ (start + limit, .event) = timer := by
    simpa [Delivery.watch] using hm
  rfl

theorem filter_watch (rest : List (Act ν)) (ending : Ending) :
    (Delivery.watch router start).filter
      (fun timer => (Stage.running rest ending).heeds timer.2) = Delivery.watch router start :=
  List.filter_eq_self.2 fun timer hm => by rw [watch_role timer hm, Stage.heeds]

section Steps

variable {time : Nat} {rest : List (Act ν)} {ending : Ending} {made : List (Nat × Message)}
  {history : List ν} {others : List Role}

namespace Proceeds

theorem le_finish (h : s.Proceeds router start run time rest ending made) : time ≤ run.finish := by
  rw [h.run, Timeline.finish_after]
  exact Timeline.le_finish rest time _

theorem isLate_iff (h : s.Proceeds router start run time rest ending made) :
    s.delivery.isLate s.clock = true
      ↔ ∃ limit, router.timeLimit = some limit ∧ start + limit ≤ s.clock := by
  rw [Delivery.isLate, h.deadline]
  rcases router.timeLimit with _ | limit <;> simp

/-- Before its time is up, nobody has its end. -/
theorem isDue_eq_false (h : s.Proceeds router start run time rest ending made)
    (hl : ∀ limit, router.timeLimit = some limit → s.clock < start + limit) :
    s.delivery.isDue s.clock = false := by
  rw [Delivery.isDue, h.stage]
  refine Bool.eq_false_iff.2 fun hlate => ?_
  obtain ⟨limit, hlimit, hle⟩ := h.isLate_iff.1 hlate
  exact absurd hle (Nat.not_le.2 (hl limit hlimit))

/-- What is sent so far is what the timeline sends by now. -/
theorem sends (h : s.Proceeds router start run time rest ending made) {elapsed : Nat}
    (hc : s.clock = start + elapsed) (hle : elapsed ≤ time) :
    run.Sends elapsed s.delivery.exchange := by
  have hcalls : run.calls = made ++ (Timeline.ofActs ending time s.delivery.exchange rest).calls :=
    (congrArg Timeline.calls h.run).trans (Timeline.calls_after _ _)
  refine ⟨made, _, hcalls, fun c hm => ?_, fun c hm => ?_, h.sent⟩
  · have := h.past c hm
    omega
  · exact Nat.le_trans hle (Timeline.le_of_mem_calls rest time _ c hm)

/-- Who looks when the time is up gives the handler up, with what it has sent by then. -/
theorem concludes_of_late (h : s.Proceeds router start run time rest ending made) {limit : Nat}
    (hlimit : router.timeLimit = some limit) (hc : s.clock = start + limit) (hl : limit ≤ time)
    (hf : limit < run.finish) (ho : others.count .notice = 0)
    (ht : ∀ timer ∈ s.timers, timer.2 ≠ .notice) :
    (s.turn router history others .event).Concludes router run start := by
  obtain ⟨command, path, program, hplan⟩ := h.plan
  have hpoll : s.delivery.poll router s.clock history .event
      = s.delivery.conclude (.failed (.timeout limit)) := by
    have hlate := h.isLate_iff.2 ⟨limit, hlimit, Nat.le_of_eq hc.symm⟩
    rw [Delivery.poll, Delivery.pollEvent, h.stage]
    dsimp only
    rw [if_pos hlate, hlimit]
    rfl
  exact concludes_of_poll hplan hpoll (.cut hlimit hf (h.sends hc hl)) hc ho ht

/-- What the turn of a handler comes to. -/
inductive Goes (router : Router) (start : Nat) (run : Timeline) (time : Nat) (ending : Ending)
    (s : Share ν) (others : List Role) (t : Share ν) : Prop
  | sleeps {ms : Nat} {rest : List (Act ν)} {made : List (Nat × Message)} (hms : 0 < ms)
    (h : t.Proceeds router start run (time + ms) rest ending made) (hr : t.ready = others)
    (ht : t.timers = s.timers.filter (fun timer => (Stage.running rest ending).heeds timer.2)
      ++ [(start + (time + ms), .handler)])
  | ends (hs : t.delivery.stage = .ended run.ending) (hx : t.delivery.exchange = run.exchange)
    (hp : ∃ command path program, t.delivery.plan = .handle command path program)
    (ho : t.delivery.outcome = none) (hf : run.finish = time)
    (hr : t.ready = others ++ if t.delivery.awaited then [] else [.event])
    (ht : ∀ timer ∈ t.timers, timer ∈ s.timers)

/-- The handler goes on along its timeline until it sleeps or ends. -/
theorem turn_handler (h : s.Proceeds router start run time rest ending made)
    (hc : s.clock = start + time) (history : List ν) (others : List Role) :
    Goes router start run time ending s others (s.turn router history others .handler) := by
  have hburst : (Burst.run history ending s.delivery.exchange [] rest).Follows ending time
      s.delivery.exchange rest := Burst.run_follows history rest _ [] h.acts
  have hsuffix : ∀ {ms : Nat} {later : List (Act ν)}, (Burst.run history ending s.delivery.exchange
      [] rest).pause = .asleep ms later → later <:+ rest := Burst.rest_isSuffix rest
  have hpoll : s.delivery.poll router s.clock history .handler
      = s.delivery.pollHandler s.clock history := rfl
  rw [Delivery.pollHandler, h.stage] at hpoll
  dsimp only at hpoll
  generalize Burst.run history ending s.delivery.exchange [] rest = burst at hburst hsuffix hpoll
  have hrun := h.run
  cases hburst with
  | @asleep y notes ms later more he hms htimes hy =>
    rw [he, Timeline.after_after] at hrun
    rw [turn_of_poll hpoll]
    refine .sleeps hms ⟨rfl, h.plan, h.outcome, h.deadline, fun a ha => ?_, hrun, ?_,
      h.begun, fun c hm => ?_⟩ (List.append_nil _) ?_
    · exact h.acts a ((hsuffix rfl).subset ha)
    · rw [hy, h.sent, List.map_append]
    · rcases List.mem_append.1 hm with hm | hm
      · exact h.past c hm
      · rw [htimes c hm]
        exact Nat.le_of_eq hc.symm
    · rw [hc, Nat.add_assoc]
  | @stopped y notes ending' more he =>
    rw [he] at hrun
    rw [turn_of_poll hpoll]
    subst hrun
    exact .ends rfl rfl h.plan h.outcome rfl rfl fun timer hm => mem_of_mem_kept hm

end Proceeds

theorem Arrives.sends (h : s.Arrives start run) : run.Sends 0 s.delivery.exchange :=
  ⟨[], run.calls, rfl, by simp, by simp, h.sent⟩

/-- The first turn of the event's own task starts the handler, or gives it up if it has no time. -/
theorem Arrives.turn (h : s.Arrives start run)
    (hne : ∀ limit, router.timeLimit = some limit → run.finish ≠ limit) (history : List ν) :
    (s.turn router history [] .event).Handles router start run
      ∨ (s.turn router history [] .event).Concludes router run start := by
  obtain ⟨command, path, program, hp, hacts, hrun⟩ := h.plan
  have hpoll : s.delivery.poll router s.clock history .event
      = s.delivery.start router s.clock program := by
    rw [Delivery.poll, Delivery.pollEvent, h.stage]
    dsimp only
    rw [Delivery.receive, hp]
  by_cases hzero : router.timeLimit = some 0
  · rw [Delivery.start_of_no_time hzero] at hpoll
    have hf : 0 < run.finish := Nat.pos_of_ne_zero (hne 0 hzero)
    have hleaves : run.Leaves router.timeLimit 0 s.delivery.exchange (.failed (.timeout 0)) :=
      .cut hzero hf h.sends
    exact .inr (concludes_of_poll hp hpoll hleaves h.clock rfl (by simp [h.timers]))
  · have hpos : ∀ limit, router.timeLimit = some limit → 0 < limit := fun limit hlimit =>
      Nat.pos_of_ne_zero fun he => hzero (he ▸ hlimit)
    rw [Delivery.start_of_time hzero h.deadline] at hpoll
    rw [turn_of_poll hpoll, h.clock, h.timers]
    have hproceeds : Proceeds router start run 0 program.acts program.ending [] { s with
        clock := start
        delivery := { s.delivery with
          stage := .running program.acts program.ending
          deadline := router.timeLimit.map (start + ·) }
        ready := [.handler]
        timers := Delivery.watch router start } :=
      ⟨rfl, ⟨command, path, program, hp⟩, h.outcome, rfl, hacts, hrun, h.sent, Nat.le_refl _,
        by simp⟩
    exact .inl (.working hproceeds hpos rfl rfl rfl)

/-- Who looks when the handler is over concludes. -/
theorem concludes_of_ended (hs : s.delivery.stage = .ended run.ending)
    (hx : s.delivery.exchange = run.exchange)
    (hp : ∃ command path program, s.delivery.plan = .handle command path program)
    (hl : ∀ limit, router.timeLimit = some limit → run.finish < limit)
    (hc : s.clock = start + run.finish) (ho : others.count .notice = 0)
    (ht : ∀ timer ∈ s.timers, timer.2 ≠ .notice) (history : List ν) :
    (s.turn router history others .event).Concludes router run start := by
  obtain ⟨command, path, program, hplan⟩ := hp
  have hpoll : s.delivery.poll router s.clock history .event = s.delivery.conclude run.ending := by
    rw [Delivery.poll, Delivery.pollEvent, hs]
  exact concludes_of_poll hplan hpoll (hx ▸ .finished hl) hc ho ht

theorem working_timers (ht : s.timers = Delivery.watch router start) :
    ∀ timer ∈ s.timers, timer.2 ≠ .notice := fun timer hm => by
  rw [watch_role timer (ht ▸ hm)]
  exact nofun

theorem asleep_timers (ht : s.timers = Delivery.watch router start ++ [(start + time, .handler)]) :
    ∀ timer ∈ s.timers, timer.2 ≠ .notice := fun timer hm => by
  rw [ht] at hm
  rcases List.mem_append.1 hm with hm | hm
  · rw [watch_role timer hm]
    exact nofun
  · rw [List.mem_singleton.1 hm]
    exact nofun

namespace Handles

/-- Who waits until there is an end, or nothing left that could happen, concludes. -/
theorem concludes (h : s.Handles router start run)
    (hstop : s.delivery.isDue s.clock = true ∨ s.ready = [] ∧ s.timers = []) (history : List ν) :
    (s.turn router history s.ready .event).Concludes router run start := by
  cases h with
  | working h hl hc hr ht =>
    have hnot := h.isDue_eq_false fun limit hlimit => hc ▸ Nat.add_lt_add_left (hl limit hlimit) _
    simp [hnot, hr] at hstop
  | asleep h hl hc hr ht =>
    have hnot := h.isDue_eq_false hl
    simp [hnot, ht] at hstop
  | ended hs hx hp ho hl hc hr ht =>
    have hcount : s.ready.count .notice = 0 := by
      rw [hr]
      split_ifs <;> rfl
    exact concludes_of_ended hs hx hp hl hc hcount ht history

/-- If somebody waits for the outcome, nobody else concludes. -/
theorem turn (h : s.Handles router start run) {before after : List Role} {role : Role}
    (hready : s.ready = before ++ role :: after) (history : List ν) :
    (s.turn router history (before ++ after) role).Handles router start run
      ∨ s.delivery.awaited = false
        ∧ (s.turn router history (before ++ after) role).Concludes router run start := by
  cases h with
  | working h hl hc hr ht =>
    obtain ⟨rfl, hothers⟩ := sole_of_ready hready hr
    rw [hothers]
    have hclock : (s.turn router history [] .handler).clock = s.clock := rfl
    cases h.turn_handler hc history [] with
    | @sleeps ms rest made hms h hr htimers =>
      rw [ht, filter_watch] at htimers
      refine .inl (.asleep h (fun limit hlimit => ?_) ?_ hr htimers)
      · rw [hclock, hc]
        exact Nat.add_lt_add_left (hl limit hlimit) start
      · rw [hclock, hc]
        omega
    | ends hs hx hp ho hf hr htimers =>
      refine .inl (.ended hs hx hp ho (fun limit hlimit => hf ▸ hl limit hlimit) ?_ hr
        fun timer hm => working_timers ht timer (htimers timer hm))
      rw [hclock, hc, hf]
  | asleep h hl hc hr ht => simp [hr] at hready
  | ended hs hx hp ho hl hc hr ht =>
    by_cases ha : s.delivery.awaited = true
    · rw [if_pos ha] at hr
      simp [hr] at hready
    · rw [if_neg ha] at hr
      obtain ⟨rfl, hothers⟩ := sole_of_ready hready hr
      rw [hothers]
      exact .inr ⟨by simpa using ha, concludes_of_ended hs hx hp hl hc rfl ht history⟩

/-- While the handler sleeps, its own timer or the one that watches over it goes off, or both, or
none of the two. -/
theorem wake (h : s.Handles router start run) {next : Nat} (hready : s.ready = [])
    (hclock : s.clock ≤ next) (hle : ∀ timer ∈ s.timers, next ≤ timer.1)
    (hdue : s.delivery.awaited = true → s.delivery.isDue s.clock = false) :
    (s.wake next).Handles router start run ∨ (s.wake next).Late router start run := by
  cases h with
  | working h hl hc hr ht => simp [hr] at hready
  | @asleep time rest ending made h hl hc hr ht =>
    have htime : next ≤ start + time := hle (start + time, .handler) (by simp [ht])
    have hlimits : ∀ limit, router.timeLimit = some limit → next ≤ start + limit :=
      fun limit hlimit => hle (start + limit, .event) (by simp [ht, Delivery.watch, hlimit])
    have hwoken : (s.wake next).Proceeds router start run time rest ending made :=
      ⟨h.stage, h.plan, h.outcome, h.deadline, h.acts, h.run, h.sent,
        Nat.le_trans h.begun hclock, fun c hm => Nat.le_trans (h.past c hm) hclock⟩
    have htimers : ∀ timer ∈ (s.wake next).timers, timer.2 ≠ .notice := fun timer hm =>
      asleep_timers ht timer (List.mem_filter.1 hm).1
    by_cases hlate : ∃ limit, router.timeLimit = some limit ∧ next = start + limit
    · obtain ⟨limit, hlimit, rfl⟩ := hlate
      by_cases htie : limit = time
      · subst htie
        refine .inr (.tied hwoken hlimit rfl ?_ htimers)
        simp [Share.wake, hr, ht, Delivery.watch, hlimit]
      · refine .inr (.alone hwoken hlimit (by omega) rfl ?_ htimers)
        simp [Share.wake, hr, ht, Delivery.watch, hlimit, Ne.symm htie]
    · have hearly : ∀ limit, router.timeLimit = some limit → next < start + limit :=
        fun limit hlimit => Nat.lt_of_le_of_ne (hlimits limit hlimit) fun he =>
          hlate ⟨limit, hlimit, he⟩
      by_cases hwake : next = start + time
      · subst hwake
        have hpos : ∀ limit, router.timeLimit = some limit → time < limit := fun limit hlimit => by
          have := hearly limit hlimit
          omega
        refine .inl (.working hwoken hpos rfl ?_ ?_)
        · rcases hlimit : router.timeLimit with _ | limit
          · simp [Share.wake, hr, ht, Delivery.watch, hlimit]
          · have := hpos limit hlimit
            simp [Share.wake, hr, ht, Delivery.watch, hlimit, Nat.ne_of_gt this]
        · rcases hlimit : router.timeLimit with _ | limit
          · simp [Share.wake, ht, Delivery.watch, hlimit]
          · have := hpos limit hlimit
            simp [Share.wake, ht, Delivery.watch, hlimit, Nat.ne_of_gt this]
      · have hnone : ∀ timer ∈ s.timers, timer.1 ≠ next := by
          intro timer hm he
          simp only [ht, Delivery.watch, List.mem_append, Option.mem_toList, Option.map_eq_some_iff,
            List.mem_singleton] at hm
          rcases hm with ⟨limit, hlimit, rfl⟩ | rfl
          · exact hlate ⟨limit, hlimit, he.symm⟩
          · exact hwake he.symm
        rw [wake_of_not_due hnone] at hwoken ⊢
        exact .inl (.asleep hwoken hearly htime hr ht)
  | ended hs hx hp ho hl hc hr ht =>
    -- one that nobody waits for has a turn to come, one that is waited for is looked at first
    exfalso
    rw [hr] at hready
    split_ifs at hready with ha
    have hnot := hdue ha
    simp [Delivery.isDue, hs] at hnot

end Handles

namespace Late

theorem isDue (h : s.Late router start run) : s.delivery.isDue s.clock = true := by
  cases h with
  | alone h hlimit hlt hc =>
    rw [Delivery.isDue, h.stage]
    exact h.isLate_iff.2 ⟨_, hlimit, Nat.le_of_eq hc.symm⟩
  | tied h hlimit hc =>
    rw [Delivery.isDue, h.stage]
    exact h.isLate_iff.2 ⟨_, hlimit, Nat.le_of_eq hc.symm⟩

variable (hne : ∀ limit, router.timeLimit = some limit → run.finish ≠ limit)

include hne

theorem look (h : s.Late router start run) (history : List ν) :
    (s.turn router history s.ready .event).Concludes router run start := by
  cases h with
  | alone h hlimit hlt hc hr ht =>
    have hf := Nat.lt_of_lt_of_le hlt h.le_finish
    exact h.concludes_of_late hlimit hc (Nat.le_of_lt hlt) hf (by rw [hr]; rfl) ht
  | tied h hlimit hc hr ht =>
    have hf := Nat.lt_of_le_of_ne h.le_finish (hne _ hlimit).symm
    exact h.concludes_of_late hlimit hc (Nat.le_refl _) hf (by rw [hr]; rfl) ht

theorem turn (h : s.Late router start run) {before after : List Role} {role : Role}
    (hready : s.ready = before ++ role :: after) (history : List ν) :
    (s.turn router history (before ++ after) role).Late router start run
      ∨ (s.turn router history (before ++ after) role).Concludes router run start := by
  cases h with
  | alone h hlimit hlt hc hr ht =>
    have hf := Nat.lt_of_lt_of_le hlt h.le_finish
    obtain ⟨rfl, hothers⟩ := sole_of_ready hready hr
    rw [hothers]
    exact .inr (h.concludes_of_late hlimit hc (Nat.le_of_lt hlt) hf rfl ht)
  | tied h hlimit hc hr ht =>
    have hf := Nat.lt_of_le_of_ne h.le_finish (hne _ hlimit).symm
    rw [hr] at hready
    rcases before with _ | ⟨first, before⟩
    · cases hready
      exact .inr (h.concludes_of_late hlimit hc (Nat.le_refl _) hf rfl ht)
    · -- the handler wakes up at the moment its time is up, and has the first turn
      obtain ⟨rfl, rfl, rfl, rfl⟩ :
          first = .event ∧ before = [] ∧ role = .handler ∧ after = [] := by
        rcases before with _ | ⟨second, before⟩ <;> simp_all
      rw [List.append_nil]
      have hclock : (s.turn router history [.event] .handler).clock = s.clock := rfl
      cases h.turn_handler hc history [.event] with
      | sleeps hms h hr htimers =>
        refine .inl (.alone h hlimit (by omega) (hclock.trans hc) hr fun timer hm => ?_)
        rw [htimers] at hm
        rcases List.mem_append.1 hm with hm | hm
        · exact ht timer (List.mem_filter.1 hm).1
        · rw [List.mem_singleton.1 hm]
          exact nofun
      | ends hs hx hp ho hfinish => exact absurd hfinish (Nat.ne_of_gt hf)

end Late

end Steps

/-! ## All that may happen -/

theorem Concludes.isDue (h : s.Concludes router run start) :
    s.delivery.isDue s.clock = true := by
  obtain ⟨_, _, _, -, -, -, hafter⟩ := h
  exact hafter.isDue s.clock

/-- Who looks once more after the conclusion changes nothing. -/
theorem Concludes.look (h : s.Concludes router run start) (history : List ν) :
    (s.turn router history s.ready .event).Concludes router run start := by
  obtain ⟨elapsed, y, ending, hleaves, hc, hx, hafter⟩ := h
  have hpoll : s.delivery.poll router s.clock history .event = (s.delivery, {}) :=
    hafter.poll_eq (by simp)
  refine ⟨elapsed, y, ending, hleaves, hc, ?_, hafter.idle (by simp) rfl⟩
  rw [turn_of_poll hpoll]
  exact hx

/-- How far an invocation has come that nobody waits for. -/
inductive Timed (router : Router) (start : Nat) (run : Timeline) (s : Share ν) : Prop
  | arrived (h : s.Arrives start run) (hr : s.ready = [.event])
  | handles (h : s.Handles router start run)
  | late (h : s.Late router start run)
  | concluded {elapsed : Nat} {y : Exchange} {ending : Ending}
    (hl : run.Leaves router.timeLimit elapsed y ending) (hc : start + elapsed ≤ s.clock)
    (h : s.After router y (start + elapsed) ending)

theorem Concludes.timed (h : s.Concludes router run start) : s.Timed router start run := by
  obtain ⟨elapsed, y, ending, hleaves, hc, -, hafter⟩ := h
  exact .concluded hleaves (Nat.le_of_eq hc.symm) hafter

theorem Timed.step {t : Share ν} (h : s.Timed router start run)
    (hne : ∀ limit, router.timeLimit = some limit → run.finish ≠ limit)
    (ha : s.delivery.awaited = false) (hs : s.Step router t) : t.Timed router start run := by
  cases hs with
  | @turn history before after role hready =>
    cases h with
    | arrived h hr =>
      obtain ⟨rfl, hothers⟩ := sole_of_ready hready hr
      rw [hothers]
      exact (h.turn hne history).elim .handles Concludes.timed
    | handles h => exact (h.turn hready history).elim .handles fun h => h.2.timed
    | late h => exact (h.turn hne hready history).elim .late Concludes.timed
    | concluded hl hc h => exact .concluded hl hc (h.turn hready)
  | @wake time hready hclock hle =>
    cases h with
    | arrived h hr => simp [hr] at hready
    | handles h =>
      exact (h.wake hready hclock hle fun h => by simp [ha] at h).elim .handles .late
    | late h =>
      cases h with
      | alone h hlimit hlt hc hr => simp [hr] at hready
      | tied h hlimit hc hr => simp [hr] at hready
    | concluded hl hc h => exact .concluded hl (Nat.le_trans hc hclock) (h.wake hready hclock hle)

/-- An invocation has an outcome, or its handler has sent so far what its timeline sends by now. -/
theorem Timed.open_or_over (h : s.Timed router start run)
    (hsent : run.Sends run.finish run.exchange) :
    (s.delivery.outcome = none ∧ ∃ elapsed, s.clock = start + elapsed ∧ elapsed ≤ run.finish
        ∧ (∀ limit, router.timeLimit = some limit → elapsed ≤ limit)
        ∧ run.Sends elapsed s.delivery.exchange)
      ∨ ∃ elapsed y ending, run.Leaves router.timeLimit elapsed y ending
        ∧ start + elapsed ≤ s.clock ∧ s.After router y (start + elapsed) ending := by
  cases h with
  | arrived h =>
    exact .inl ⟨h.outcome, 0, h.clock, Nat.zero_le _, fun _ _ => Nat.zero_le _, h.sends⟩
  | handles h =>
    cases h with
    | working h hl hc =>
      exact .inl ⟨h.outcome, _, hc, h.le_finish,
        fun limit hlimit => Nat.le_of_lt (hl limit hlimit), h.sends hc (Nat.le_refl _)⟩
    | @asleep time rest ending made h hl hc =>
      obtain ⟨elapsed, he⟩ := Nat.exists_eq_add_of_le h.begun
      have hle : elapsed ≤ time := by omega
      refine .inl ⟨h.outcome, elapsed, he, Nat.le_trans hle h.le_finish, fun limit hlimit => ?_,
        h.sends he hle⟩
      have := hl limit hlimit
      omega
    | ended hs hx hp ho hl hc =>
      exact .inl ⟨ho, _, hc, Nat.le_refl _, fun limit hlimit => Nat.le_of_lt (hl limit hlimit),
        hx ▸ hsent⟩
  | late h =>
    have honly : ∀ {limit other : Nat}, router.timeLimit = some limit →
        router.timeLimit = some other → limit ≤ other := fun hlimit hother =>
      Nat.le_of_eq (Option.some.inj (hlimit.symm.trans hother))
    cases h with
    | alone h hlimit hlt hc =>
      have hle := Nat.le_of_lt hlt
      exact .inl ⟨h.outcome, _, hc, Nat.le_trans hle h.le_finish, fun _ => honly hlimit,
        h.sends hc hle⟩
    | tied h hlimit hc =>
      exact .inl ⟨h.outcome, _, hc, h.le_finish, fun _ => honly hlimit,
        h.sends hc (Nat.le_refl _)⟩
  | concluded hl hc h => exact .inr ⟨_, _, _, hl, hc, h⟩

end Share

end SlashCommands
