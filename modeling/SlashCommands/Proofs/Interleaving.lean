import SlashCommands.Proofs.SoundMachine

/-!
# Interleavings

Left to itself, a machine may do the jobs that are ready in any order (`Machine.Next`), not only in
the order in which they became ready; the clock still jumps only when nothing is ready. What a
machine does by its own order is one interleaving of many (`Machine.interleaves_runUntil`).

A delivery has a share of what is ready and of the timers (`Share`). It changes by turns of its own
tasks and by jumps of the clock (`Share.Step`); whatever else happens leaves it alone
(`Machine.Next.share`).
-/

namespace SlashCommands

variable {ν : Type}

namespace Machine

variable {m n : Machine ν}

/-- One thing that a machine may do next by itself. -/
inductive Next (m : Machine ν) : Machine ν → Prop
  | job {before after : List (Job ν)} {job : Job ν} (h : m.queue = before ++ job :: after) :
    Next m (({ m with queue := before ++ after } : Machine ν).perform job)
  | tick {n : Machine ν} (hq : m.queue = []) (h : m.tick? = some n) : Next m n

/-- By itself, one machine may become another. -/
abbrev Interleaves : Machine ν → Machine ν → Prop :=
  Relation.ReflTransGen Next

/-! ## The machine's own order -/

theorem interleaves_drainWith : ∀ (fuel : Nat) (m : Machine ν), m.Interleaves (drainWith fuel m)
  | 0, _ => .refl
  | fuel + 1, m => by
    rw [drainWith]
    split
    · exact .refl
    · rename_i job queue hq
      have hn : m.Next (({ m with queue } : Machine ν).perform job) :=
        .job (show m.queue = [] ++ job :: queue from hq)
      exact .head hn (interleaves_drainWith fuel _)

theorem interleaves_runWith (goal : Machine ν → Bool) :
    ∀ (fuel : Nat) (m : Machine ν), m.Interleaves (runWith goal fuel m)
  | 0, _ => .refl
  | fuel + 1, m => by
    have hd : m.Interleaves m.drain := interleaves_drainWith _ m
    rw [runWith]
    split_ifs
    · exact .refl
    · dsimp only
      split_ifs
      · exact hd
      · split
        · rename_i n hn
          exact (hd.tail (.tick m.drain_queue hn)).trans (interleaves_runWith goal fuel n)
        · exact hd

theorem interleaves_runUntil (m : Machine ν) (goal : Machine ν → Bool) :
    m.Interleaves (m.runUntil goal) :=
  interleaves_runWith goal _ m

/-! ## What every order keeps -/

theorem Next.evolves (h : m.Next n) : m.Evolves n := by
  cases h with
  | @job before after job hq =>
    have hm : m.Evolves { m with queue := before ++ after } := .of_eq rfl rfl rfl
    exact hm.trans (perform_evolves _ job)
  | tick hq ht => exact tick?_evolves ht

theorem Interleaves.evolves (h : m.Interleaves n) : m.Evolves n := by
  induction h with
  | refl => exact .refl m
  | tail _ hn ih => exact ih.trans hn.evolves

theorem Next.sound (hn : m.Next n) (h : m.Sound) : n.Sound := by
  cases hn with
  | @job before after job hq =>
    -- the place of a job in the queue makes no difference
    have hfirst : ({ m with queue := job :: (before ++ after) } : Machine ν).Sound :=
      h.of_willRun rfl h.timely fun task => by
        simp only [WillRun, hq, List.mem_cons, List.mem_append]
        tauto
    exact hfirst.perform rfl
  | tick hq ht => exact h.tick ht

theorem Interleaves.sound (hn : m.Interleaves n) (h : m.Sound) : n.Sound := by
  induction hn with
  | refl => exact h
  | tail _ hs ih => exact hs.sound ih

end Machine

/-! ## Shares -/

/-- What a delivery has of a machine: the time, itself, which of its tasks are ready, and when which
of them are woken. -/
structure Share (ν : Type) where
  clock : Nat
  delivery : Delivery ν
  ready : List Role
  timers : List (Nat × Role)

namespace Share

/-- One of the tasks has its turn while others stay ready. -/
def turn (router : Router) (history : List ν) (s : Share ν) (others : List Role) (role : Role) :
    Share ν :=
  let (d, effects) := s.delivery.poll router s.clock history role
  { s with
    delivery := d
    ready := others ++ effects.ready
    timers := s.timers.filter (fun timer => d.stage.heeds timer.2) ++ effects.timers }

/-- The clock jumps. -/
def wake (s : Share ν) (time : Nat) : Share ν :=
  { s with
    clock := time
    ready := s.ready ++ (s.timers.filter fun timer => timer.1 == time).map Prod.snd
    timers := s.timers.filter fun timer => !(timer.1 == time) }

/-- Where none of its timers is due, a jump of the clock is all that happens. -/
theorem wake_of_not_due {s : Share ν} {time : Nat} (h : ∀ timer ∈ s.timers, timer.1 ≠ time) :
    s.wake time = { s with clock := time } := by
  have hdue : (s.timers.filter fun timer => timer.1 == time) = [] :=
    List.filter_eq_nil_iff.2 fun timer hmem => by simpa using h timer hmem
  have hlater : (s.timers.filter fun timer => !(timer.1 == time)) = s.timers :=
    List.filter_eq_self.2 fun timer hmem => by simpa using h timer hmem
  rw [wake, hdue, hlater, List.map_nil, List.append_nil]

/-- What may happen to a delivery next. -/
inductive Step (router : Router) (s : Share ν) : Share ν → Prop
  | turn (history : List ν) {before after : List Role} {role : Role}
    (h : s.ready = before ++ role :: after) :
    Step router s (s.turn router history (before ++ after) role)
  | wake {time : Nat} (hr : s.ready = []) (hc : s.clock ≤ time)
    (ht : ∀ timer ∈ s.timers, time ≤ timer.1) : Step router s (s.wake time)

theorem Step.awaited {router : Router} {s t : Share ν} (h : s.Step router t) :
    t.delivery.awaited = s.delivery.awaited := by
  cases h with
  | turn history => exact s.delivery.poll_awaited history _
  | wake => rfl

/-- What may become of the share of one delivery. -/
abbrev Steps (router : Router) : Share ν → Share ν → Prop :=
  Relation.ReflTransGen (Step router)

/-- The share of an event that has just arrived. -/
def arrived (clock : Nat) (event : Event) (transport : Transport) (plan : Plan ν) : Share ν :=
  ⟨clock, .arriving event transport plan false, [.event], []⟩

end Share

/-- What a job does for a delivery. -/
def Job.roleFor? (id : Nat) : Job ν → Option Role
  | .task t => if t.delivery = id then some t.role else none
  | .addition _ => none

theorem Job.roleFor?_eq_some {id : Nat} {job : Job ν} {role : Role}
    (h : job.roleFor? id = some role) : job = .task ⟨id, role⟩ := by
  cases job with
  | task t =>
    rw [roleFor?] at h
    split_ifs at h with hid
    cases h
    rw [← hid]
  | addition a => cases h

/-- When a timer wakes which task of a delivery. -/
def Timer.callFor? (id : Nat) (timer : Timer) : Option (Nat × Role) :=
  timer.task.bind fun task =>
    if task.delivery = id then some (timer.time, task.role) else none

theorem Timer.task_of_callFor? {id : Nat} {timer : Timer} {call : Nat × Role}
    (h : timer.callFor? id = some call) : timer.task = some ⟨id, call.2⟩ := by
  obtain ⟨task, htask, hcall⟩ := Option.bind_eq_some_iff.1 h
  split_ifs at hcall with hid
  cases hcall
  rw [htask, ← hid]

theorem Timer.time_of_callFor? {id : Nat} {timer : Timer} {call : Nat × Role}
    (h : timer.callFor? id = some call) : timer.time = call.1 := by
  obtain ⟨task, -, hcall⟩ := Option.bind_eq_some_iff.1 h
  split_ifs at hcall
  cases hcall
  rfl

namespace Machine

variable {m n : Machine ν} {id : Nat} {task : Task} {d : Delivery ν} {s : Share ν}

/-- The turns of a delivery that are in the queue. -/
def readyFor (m : Machine ν) (id : Nat) : List Role :=
  m.queue.filterMap (Job.roleFor? id)

/-- The turns of a delivery that timers call for. -/
def timersFor (m : Machine ν) (id : Nat) : List (Nat × Role) :=
  m.timers.filterMap (Timer.callFor? id)

/-- What one delivery has of a machine, if it is there. -/
def share? (m : Machine ν) (id : Nat) : Option (Share ν) :=
  (m.delivery? id).map fun d => ⟨m.clock, d, m.readyFor id, m.timersFor id⟩

theorem share?_eq_some_iff : m.share? id = some s ↔
    m.delivery? id = some s.delivery ∧ s.clock = m.clock ∧ s.ready = m.readyFor id
      ∧ s.timers = m.timersFor id := by
  rw [share?, Option.map_eq_some_iff]
  constructor
  · rintro ⟨d, hd, rfl⟩
    exact ⟨hd, rfl, rfl, rfl⟩
  · obtain ⟨clock, d, ready, timers⟩ := s
    rintro ⟨hd, rfl, rfl, rfl⟩
    exact ⟨d, hd, rfl⟩

/-! ### Turns -/

theorem timersFor_filter_keeps (stage : Stage ν) (timers : List Timer) :
    (timers.filter (keeps id stage)).filterMap (Timer.callFor? id)
      = (timers.filterMap (Timer.callFor? id)).filter fun timer => stage.heeds timer.2 := by
  rw [List.filterMap_filter, List.filter_filterMap]
  refine congrArg (List.filterMap · timers) (funext fun timer => ?_)
  obtain ⟨time, _ | task⟩ := timer
  · simp [Timer.callFor?]
  · by_cases hid : task.delivery = id <;> simp [Timer.callFor?, keeps, hid, Option.filter]

theorem timersFor_filter_keeps_of_ne {other : Nat} (h : other ≠ id) (stage : Stage ν)
    (timers : List Timer) : (timers.filter (keeps other stage)).filterMap (Timer.callFor? id)
      = timers.filterMap (Timer.callFor? id) := by
  rw [List.filterMap_filter]
  refine congrArg (List.filterMap · timers) (funext fun timer => ?_)
  obtain ⟨time, _ | task⟩ := timer
  · simp [Timer.callFor?]
  · by_cases hid : task.delivery = id
    · simp [Timer.callFor?, keeps, hid, h.symm]
    · simp [Timer.callFor?, hid]

/-- The turn of a task changes the share of its delivery. -/
theorem share?_turn_self (h : m.share? id = some s) (role : Role) :
    (m.turn ⟨id, role⟩).share? id = some (s.turn m.router m.notes s.ready role) := by
  obtain ⟨hd, hc, hr, ht⟩ := share?_eq_some_iff.1 h
  have hd' : m.delivery? (⟨id, role⟩ : Task).delivery = some s.delivery := hd
  refine share?_eq_some_iff.2 ⟨?_, ?_, ?_, ?_⟩
  · rw [Share.turn, hc]
    exact delivery?_turn_self hd'
  · rw [clock_turn]
    exact hc
  · rw [readyFor, turn_eq_of_some hd', List.filterMap_append, List.filterMap_map, Share.turn, hr,
      hc]
    have hself : Job.roleFor? id ∘ (fun role => Job.task (ν := ν) ⟨id, role⟩) = some :=
      funext fun role => by simp [Job.roleFor?]
    rw [hself, List.filterMap_some]
    rfl
  · rw [timersFor, turn_eq_of_some hd', List.filterMap_append, List.filterMap_map, Share.turn, ht,
      hc]
    have hself :
        Timer.callFor? id ∘ (fun timer : Nat × Role => ⟨timer.1, some ⟨id, timer.2⟩⟩) = some :=
      funext fun timer => by simp [Timer.callFor?]
    rw [hself, List.filterMap_some, timersFor_filter_keeps]
    rfl

/-- The turn of a task leaves the shares of other deliveries. -/
theorem share?_turn_of_ne (h : task.delivery ≠ id) : (m.turn task).share? id = m.share? id := by
  rcases hd : m.delivery? task.delivery with _ | d
  · rw [turn_eq_of_none hd]
  · have hready : (m.turn task).readyFor id = m.readyFor id := by
      rw [readyFor, turn_eq_of_some hd, List.filterMap_append, List.filterMap_map]
      have hother : Job.roleFor? id ∘ (fun role => Job.task (ν := ν) ⟨task.delivery, role⟩)
          = fun _ => none :=
        funext fun role => by simp [Job.roleFor?, h]
      rw [hother, List.filterMap_none, List.append_nil]
      rfl
    have htimers : (m.turn task).timersFor id = m.timersFor id := by
      rw [timersFor, turn_eq_of_some hd, List.filterMap_append, List.filterMap_map]
      have hother : Timer.callFor? id
          ∘ (fun timer : Nat × Role => ⟨timer.1, some ⟨task.delivery, timer.2⟩⟩)
          = fun _ => none :=
        funext fun timer => by simp [Timer.callFor?, h]
      rw [hother, List.filterMap_none, List.append_nil, timersFor_filter_keeps_of_ne h]
      rfl
    rw [share?, share?, delivery?_turn_of_ne h.symm, clock_turn, hready, htimers]

/-! ### All that may happen -/

theorem share?_perform_of_ne {job : Job ν} (h : job.roleFor? id = none) :
    (m.perform job).share? id = m.share? id := by
  cases job with
  | task task => exact share?_turn_of_ne fun hid => by simp [Job.roleFor?, hid] at h
  | addition addition =>
    obtain ⟨calls, logs, he⟩ := actAll_eq addition.run m
    rw [perform, he]
    rfl

theorem share?_tick (h : m.tick? = some n) (hs : m.share? id = some s) :
    n.share? id = some (s.wake n.clock) := by
  obtain ⟨hd, hc, hr, ht⟩ := share?_eq_some_iff.1 hs
  obtain ⟨time, -, -, rfl⟩ := tick?_eq_some h
  refine share?_eq_some_iff.2 ⟨hd, rfl, ?_, ?_⟩
  · rw [Share.wake, hr, ht, readyFor, readyFor, timersFor]
    dsimp only
    rw [List.filterMap_append, List.filterMap_map, List.filterMap_filterMap, List.filterMap_filter,
      List.filter_filterMap, List.map_filterMap]
    refine congrArg _ (congrArg (List.filterMap · m.timers) (funext fun timer => ?_))
    obtain ⟨moment, _ | task⟩ := timer
    · simp [Timer.callFor?]
    · by_cases hid : task.delivery = id <;> by_cases htime : moment = time <;>
        simp [Timer.callFor?, Job.roleFor?, hid, htime, Option.filter]
  · rw [Share.wake, ht, timersFor, timersFor]
    dsimp only
    rw [List.filterMap_filter, List.filter_filterMap]
    refine congrArg (List.filterMap · m.timers) (funext fun timer => ?_)
    obtain ⟨moment, _ | task⟩ := timer
    · simp [Timer.callFor?]
    · by_cases hid : task.delivery = id <;> by_cases htime : moment = time <;>
        simp [Timer.callFor?, hid, htime, Option.filter]

theorem readyFor_eq_nil (hm : m.Sound) (h : m.deliveries.length ≤ id) : m.readyFor id = [] := by
  refine List.filterMap_eq_nil_iff.2 fun job hjob => ?_
  by_contra hne
  obtain ⟨role, hrole⟩ := Option.ne_none_iff_exists'.1 hne
  rw [Job.roleFor?_eq_some hrole] at hjob
  exact Nat.not_lt.2 h (hm.known _ (.inl hjob))

theorem timersFor_eq_nil (hm : m.Sound) (h : m.deliveries.length ≤ id) : m.timersFor id = [] := by
  refine List.filterMap_eq_nil_iff.2 fun timer htimer => ?_
  by_contra hne
  obtain ⟨call, hcall⟩ := Option.ne_none_iff_exists'.1 hne
  exact Nat.not_lt.2 h (hm.known _ (.inr ⟨timer, htimer, Timer.task_of_callFor? hcall⟩))

theorem share?_postOver_self (hm : m.Sound) (event : Event) (transport : Transport) :
    (m.postOver event transport).share? m.deliveries.length
      = some (.arrived m.clock event transport (m.router.plan m.registry event)) := by
  refine share?_eq_some_iff.2 ⟨m.delivery?_postOver event transport, rfl, ?_, ?_⟩
  · have hold : m.queue.filterMap (Job.roleFor? m.deliveries.length) = [] :=
      readyFor_eq_nil hm (Nat.le_refl _)
    rw [readyFor, postOver, List.filterMap_append, hold]
    simp [Job.roleFor?, Share.arrived]
  · exact (timersFor_eq_nil hm (Nat.le_refl _)).symm

theorem share?_postOver_of_lt (h : id < m.deliveries.length) (event : Event)
    (transport : Transport) : (m.postOver event transport).share? id = m.share? id := by
  have hready : (m.postOver event transport).readyFor id = m.readyFor id := by
    rw [readyFor, postOver, List.filterMap_append]
    simp [Job.roleFor?, Nat.ne_of_gt h, readyFor]
  rw [share?, share?, hready, delivery?_postOver_of_lt h]
  rfl

/-- A job is a turn of the delivery, or leaves its share alone. -/
theorem share?_job {before after : List (Job ν)} {job : Job ν}
    (hq : m.queue = before ++ job :: after) (h : m.share? id = some s) :
    (({ m with queue := before ++ after } : Machine ν).perform job).share? id = some s
      ∨ ∃ left role right, s.ready = left ++ role :: right
        ∧ (({ m with queue := before ++ after } : Machine ν).perform job).share? id
          = some (s.turn m.router m.notes (left ++ right) role) := by
  obtain ⟨hd, hc, hr, ht⟩ := share?_eq_some_iff.1 h
  rw [readyFor, hq, List.filterMap_append, List.filterMap_cons] at hr
  rcases hj : job.roleFor? id with _ | role
  · rw [hj] at hr
    refine .inl ?_
    rw [share?_perform_of_ne hj]
    exact share?_eq_some_iff.2 ⟨hd, hc, by rw [hr, readyFor, List.filterMap_append], ht⟩
  · obtain rfl := Job.roleFor?_eq_some hj
    have hrest : ({ m with queue := before ++ after } : Machine ν).share? id
        = some { s with
          ready := before.filterMap (Job.roleFor? id) ++ after.filterMap (Job.roleFor? id) } :=
      share?_eq_some_iff.2 ⟨hd, hc, (List.filterMap_append ..).symm, ht⟩
    rw [hj] at hr
    exact .inr ⟨_, role, _, hr, share?_turn_self hrest role⟩

/-- A jump of the clock wakes the share, and comes to no later than the next of its timers. -/
theorem share?_jump (hm : m.Sound) (hq : m.queue = []) (ht : m.tick? = some n)
    (h : m.share? id = some s) :
    n.share? id = some (s.wake n.clock) ∧ s.ready = [] ∧ s.clock ≤ n.clock
      ∧ ∀ timer ∈ s.timers, n.clock ≤ timer.1 := by
  obtain ⟨-, hc, hr, htimers⟩ := share?_eq_some_iff.1 h
  have hs := share?_tick ht h
  obtain ⟨time, ⟨first, hfirst, htime⟩, hle, rfl⟩ := tick?_eq_some ht
  refine ⟨hs, ?_, ?_, fun timer hmem => ?_⟩
  · rw [hr, readyFor, hq, List.filterMap_nil]
  · rw [hc, ← htime]
    exact hm.timely first hfirst
  · rw [htimers] at hmem
    obtain ⟨whole, hwhole, hcall⟩ := List.mem_filterMap.1 hmem
    rw [← Timer.time_of_callFor? hcall]
    exact hle whole hwhole

/-- Whatever a machine does, a delivery takes its own next step or none. -/
theorem Next.share (hn : m.Next n) (hm : m.Sound) (h : m.share? id = some s) :
    ∃ t, n.share? id = some t ∧ (t = s ∨ s.Step m.router t) := by
  cases hn with
  | job hq =>
    rcases share?_job hq h with hsame | ⟨left, role, right, hr, hturn⟩
    · exact ⟨s, hsame, .inl rfl⟩
    · exact ⟨_, hturn, .inr (.turn m.notes hr)⟩
  | tick hq ht =>
    obtain ⟨hs, hr, hc, hle⟩ := share?_jump hm hq ht h
    exact ⟨_, hs, .inr (.wake hr hc hle)⟩

/-- However its jobs are ordered, a machine leads a delivery along its own steps. -/
theorem Interleaves.share (hn : m.Interleaves n) (hm : m.Sound) (h : m.share? id = some s) :
    ∃ t, n.share? id = some t ∧ s.Steps m.router t := by
  induction hn with
  | refl => exact ⟨s, h, .refl⟩
  | @tail n o hmn hno ih =>
    obtain ⟨t, ht, hst⟩ := ih
    obtain ⟨u, hu, rfl | htu⟩ := hno.share (Interleaves.sound hmn hm) ht
    · exact ⟨u, hu, hst⟩
    · rw [(Interleaves.evolves hmn).router] at htu
      exact ⟨u, hu, hst.tail htu⟩

end Machine

end SlashCommands
