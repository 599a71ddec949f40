import SlashCommands.Proofs.Reachable
import SlashCommands.Proofs.RegistryIndex

/-!
# Sound machines

A delivery whose handler runs, or whose notice is kept back, owes a turn to that task; one that
nobody looks for owes a turn to its own task before and after. In a sound machine (`Machine.Sound`)
whatever is owed is in the queue or on a timer, no timer is overdue, and no task belongs to a
delivery that has yet to come, nor any but its own task to one that has yet to start. Every step
keeps this (`Machine.Step.sound`), so every reachable machine is sound (`Machine.Reachable.sound`).
It never gets stuck: what rests owes nothing (`Machine.Sound.owes_eq_none`). Of one delivery, a step
is a turn of its own tasks or leaves it alone (`Machine.Step.spares_or_turn`).
-/

namespace SlashCommands

variable {ν : Type}

/-! ## What deliveries wait for -/

/-- Whether a handler or a completion is to be run. -/
def Plan.hasProgram : Plan ν → Bool
  | .handle .. => true
  | .complete .. => true
  | _ => false

namespace Delivery

/-- The task without which a delivery would never go on; who waits for it looks for itself. -/
def owes (d : Delivery ν) : Option Role :=
  match d.stage with
  | .arrived => if d.awaited then none else some .event
  | .running .. => some .handler
  | .ended _ => if d.awaited || !d.plan.hasProgram then none else some .event
  | .notifying _ => some .notice
  | .settled => none

theorem owes_planned {router : Router} {registry : CommandRegistry ν} {d : Delivery ν} :
    (d.planned router registry).owes = d.owes := by
  by_cases hs : d.stage = .arrived
  · rw [planned_of_arrived hs, owes, owes, hs]
  · rw [planned_of_started hs]

theorem heeds_of_owes {d : Delivery ν} {role : Role} (h : d.owes = some role) :
    d.stage.heeds role = true := by
  rw [owes] at h
  split at h <;> rename_i hs <;> rw [hs]
  · split_ifs at h
    cases h
    rfl
  · cases h
    rfl
  · split_ifs at h
    cases h
    rfl
  · cases h
    rfl
  · cases h

end Delivery

/-- Whether these effects give the role a turn, now or later. -/
def Effects.Wakes (e : Effects ν) (role : Role) : Prop :=
  role ∈ e.ready ∨ ∃ time, (time, role) ∈ e.timers

namespace Delivery

variable {router : Router} {clock : Nat}

/-- A turn keeps what is owed to others, or wakes it. -/
def Tends (d : Delivery ν) (role : Role) (result : Delivery ν × Effects ν) : Prop :=
  ∀ owed, result.1.owes = some owed → result.2.Wakes owed ∨ role ≠ owed ∧ d.owes = some owed

theorem tends_self {d : Delivery ν} {role : Role} (h : d.owes ≠ some role) :
    d.Tends role (d, {}) := by
  intro owed ho
  refine .inr ⟨?_, ho⟩
  rintro rfl
  exact h ho

theorem tends_of_owes_eq_none {d : Delivery ν} {role : Role} {result : Delivery ν × Effects ν}
    (h : result.1.owes = none) : d.Tends role result := by
  intro owed ho
  rw [h] at ho
  cases ho

theorem tends_of_ready {d : Delivery ν} {role owed : Role} {result : Delivery ν × Effects ν}
    (h : result.1.owes = some owed) (hr : owed ∈ result.2.ready) : d.Tends role result := by
  intro other ho
  rw [h] at ho
  cases ho
  exact .inl (.inl hr)

theorem tends_of_timer {d : Delivery ν} {role owed : Role} {time : Nat}
    {result : Delivery ν × Effects ν} (h : result.1.owes = some owed)
    (ht : (time, owed) ∈ result.2.timers) : d.Tends role result := by
  intro other ho
  rw [h] at ho
  cases ho
  exact .inl (.inr ⟨time, ht⟩)

theorem conclude_tends {d : Delivery ν} (h : d.plan.hasProgram = false → d.owes ≠ some .event)
    (ending : Ending) : d.Tends .event (d.conclude ending) := by
  rw [conclude]
  split
  · cases ending with
    | done suggestions => exact tends_of_owes_eq_none rfl
    | failed failure => exact tends_of_ready rfl (List.mem_singleton.2 rfl)
  · cases ending <;> exact tends_of_owes_eq_none rfl
  · rename_i hh hc
    refine tends_self (h ?_)
    rcases hp : d.plan with _ | _ | _ | ⟨command, path, program⟩ | _ | ⟨command, argument, program⟩
    all_goals first | rfl | exact absurd hp (hh _ _ _) | exact absurd hp (hc _ _ _)

theorem start_tends {d : Delivery ν} (h : d.plan.hasProgram = true) (program : Program ν) :
    d.Tends .event (d.start router clock program) := by
  rw [start]
  split
  · exact tends_of_ready rfl (List.mem_singleton.2 rfl)
  · exact conclude_tends (fun hn => by rw [h] at hn; cases hn) _
  · exact tends_of_ready rfl (List.mem_singleton.2 rfl)

theorem receive_tends (d : Delivery ν) : d.Tends .event (d.receive router clock) := by
  rw [receive]
  split
  · exact tends_of_owes_eq_none rfl
  · exact tends_of_owes_eq_none rfl
  · exact tends_of_owes_eq_none rfl
  · exact tends_of_owes_eq_none rfl
  · rename_i hp
    exact start_tends (by rw [hp, Plan.hasProgram]) _
  · rename_i hp
    exact start_tends (by rw [hp, Plan.hasProgram]) _

theorem pollEvent_tends (d : Delivery ν) : d.Tends .event (d.pollEvent router clock) := by
  rw [pollEvent]
  split
  · exact d.receive_tends
  · rename_i hs
    have ho : d.owes ≠ some .event := by simp [owes, hs]
    split_ifs
    · exact conclude_tends (fun _ => ho) _
    · exact tends_self ho
  · rename_i hs
    exact conclude_tends (fun hn => by simp [owes, hs, hn]) _
  · rename_i ha hr he
    refine tends_self ?_
    rcases hs : d.stage with _ | ⟨acts, ending⟩ | ending | rested | _
    · exact absurd hs ha
    · exact absurd hs (hr acts ending)
    · exact absurd hs (he ending)
    · simp [owes, hs]
    · simp [owes, hs]

theorem pollHandler_tends (d : Delivery ν) (history : List ν) :
    d.Tends .handler (d.pollHandler clock history) := by
  rw [pollHandler]
  split
  · dsimp only
    split
    · exact tends_of_timer rfl (List.mem_singleton.2 rfl)
    · intro owed ho
      rw [owes] at ho
      dsimp only at ho
      split_ifs at ho with hw
      cases ho
      have ha : d.awaited = false := by simp_all
      exact .inl (.inl (by simp [ha]))
  · rename_i hr
    refine tends_self fun ho => ?_
    rcases hs : d.stage with _ | ⟨acts, ending⟩ | ending | rested | _
    all_goals first | exact hr _ _ hs | simp [owes, hs] at ho

theorem pollNotice_tends (d : Delivery ν) : d.Tends .notice (d.pollNotice router clock) := by
  rw [pollNotice]
  split
  · split_ifs
    · exact tends_of_timer rfl (List.mem_singleton.2 rfl)
    · exact tends_of_owes_eq_none rfl
  · rename_i hr
    refine tends_self fun ho => ?_
    rcases hs : d.stage with _ | ⟨acts, ending⟩ | ending | rested | _
    all_goals first | exact hr _ hs | simp [owes, hs] at ho

theorem poll_tends (d : Delivery ν) (history : List ν) (role : Role) :
    d.Tends role (d.poll router clock history role) := by
  cases role with
  | event => exact d.pollEvent_tends
  | handler => exact d.pollHandler_tends history
  | notice => exact d.pollNotice_tends

/-! ## Timers that a turn sets -/

theorem conclude_timers (d : Delivery ν) (ending : Ending) : (d.conclude ending).2.timers = [] := by
  rw [conclude]
  split
  · cases ending <;> rfl
  · cases ending <;> rfl
  · rfl

theorem start_timers_le (d : Delivery ν) (program : Program ν) :
    ∀ timer ∈ (d.start router clock program).2.timers, clock ≤ timer.1 := by
  rw [start]
  split
  · simp
  · simp [conclude_timers]
  · simp

theorem pollEvent_timers_le (d : Delivery ν) :
    ∀ timer ∈ (d.pollEvent router clock).2.timers, clock ≤ timer.1 := by
  rw [pollEvent]
  split
  · rw [receive]
    split
    · simp
    · simp
    · simp
    · simp
    · exact d.start_timers_le _
    · exact d.start_timers_le _
  · split_ifs
    · simp [conclude_timers]
    · simp
  · simp [conclude_timers]
  · simp

/-- No turn sets a timer for what is past. -/
theorem poll_timers_le (d : Delivery ν) (history : List ν) (role : Role) :
    ∀ timer ∈ (d.poll router clock history role).2.timers, clock ≤ timer.1 := by
  cases role with
  | event => exact d.pollEvent_timers_le
  | handler =>
    rw [poll, pollHandler]
    split
    · dsimp only
      split <;> simp
    · simp
  | notice =>
    rw [poll, pollNotice]
    split
    · split_ifs <;> simp
    · simp

/-! ## Who waits -/

@[simp]
theorem conclude_awaited (d : Delivery ν) (ending : Ending) :
    (d.conclude ending).1.awaited = d.awaited := by
  rw [conclude]
  split
  · cases ending <;> rfl
  · cases ending <;> rfl
  · rfl

theorem receive_awaited (d : Delivery ν) : (d.receive router clock).1.awaited = d.awaited := by
  rw [receive]
  split
  · rfl
  · rfl
  · rfl
  · rfl
  · rw [start]
    split <;> simp
  · rw [start]
    split <;> simp

theorem poll_awaited (d : Delivery ν) (history : List ν) (role : Role) :
    (d.poll router clock history role).1.awaited = d.awaited := by
  cases role with
  | event =>
    rw [poll, pollEvent]
    split
    · exact d.receive_awaited
    · split_ifs <;> simp
    · simp
    · rfl
  | handler =>
    rw [poll, pollHandler]
    split
    · dsimp only
      split <;> rfl
    · rfl
  | notice =>
    rw [poll, pollNotice]
    split
    · split_ifs <;> rfl
    · rfl

end Delivery

/-! ## The whole machine -/

namespace Machine

variable {m n : Machine ν} {task other : Task} {d : Delivery ν}

/-- The task is in the queue or on a timer. -/
def WillRun (m : Machine ν) (task : Task) : Prop :=
  .task task ∈ m.queue ∨ ∃ timer ∈ m.timers, timer.task = some task

theorem willRun_of_turn (hd : m.delivery? task.delivery = some d)
    (h : (m.turn task).WillRun other) :
    m.WillRun other ∨ other.delivery = task.delivery
      ∧ (d.poll m.router m.clock m.notes task.role).2.Wakes other.role := by
  rw [turn_eq_of_some hd] at h
  rcases h with h | ⟨timer, h, ht⟩
  · rcases List.mem_append.1 h with h | h
    · exact .inl (.inl h)
    · obtain ⟨role, hr, he⟩ := List.mem_map.1 h
      cases he
      exact .inr ⟨rfl, .inl hr⟩
  · rcases List.mem_append.1 h with h | h
    · exact .inl (.inr ⟨timer, (List.mem_filter.1 h).1, ht⟩)
    · obtain ⟨⟨time, role⟩, hr, rfl⟩ := List.mem_map.1 h
      cases ht
      exact .inr ⟨rfl, .inr ⟨time, hr⟩⟩

theorem willRun_turn_of_wakes (hd : m.delivery? task.delivery = some d) {role : Role}
    (h : (d.poll m.router m.clock m.notes task.role).2.Wakes role) :
    (m.turn task).WillRun ⟨task.delivery, role⟩ := by
  rw [turn_eq_of_some hd]
  rcases h with h | ⟨time, h⟩
  · exact .inl (List.mem_append_right _ (List.mem_map_of_mem h))
  · exact .inr ⟨_, List.mem_append_right _ (List.mem_map_of_mem h), rfl⟩

theorem mem_queue_turn {job : Job ν} (h : job ∈ m.queue) (task : Task) :
    job ∈ (m.turn task).queue := by
  rw [turn]
  split
  · exact h
  · exact List.mem_append_left _ h

/-- A timer stays as long as its delivery heeds it. -/
theorem mem_timers_turn {timer : Timer} (h : timer ∈ m.timers) (ht : timer.task = some other)
    (hk : other.delivery = task.delivery →
      ∀ d, (m.turn task).deliveries[task.delivery]? = some d → d.stage.heeds other.role = true) :
    timer ∈ (m.turn task).timers := by
  rcases hd : m.delivery? task.delivery with _ | d
  · rwa [turn_eq_of_none hd]
  · have hkeeps : keeps task.delivery (d.poll m.router m.clock m.notes task.role).1.stage timer
        = true := by
      rw [keeps, ht]
      by_cases he : other.delivery = task.delivery
      · simp [hk he _ (deliveries_turn_self hd)]
      · simp [he]
    rw [turn_eq_of_some hd]
    exact List.mem_append_left _ (List.mem_filter.2 ⟨h, hkeeps⟩)

theorem WillRun.turn (h : m.WillRun other)
    (hk : other.delivery = task.delivery →
      ∀ d, (m.turn task).deliveries[task.delivery]? = some d → d.stage.heeds other.role = true) :
    (m.turn task).WillRun other := by
  rcases h with h | ⟨timer, h, ht⟩
  · exact .inl (mem_queue_turn h task)
  · exact .inr ⟨timer, mem_timers_turn h ht hk, ht⟩

theorem willRun_tick_iff (h : m.tick? = some n) : n.WillRun task ↔ m.WillRun task := by
  obtain ⟨time, -, -, rfl⟩ := tick?_eq_some h
  simp only [WillRun, List.mem_append, List.mem_map, List.mem_filterMap, List.mem_filter]
  constructor
  · rintro ((h | ⟨other, ⟨timer, ⟨ht, -⟩, hs⟩, he⟩) | ⟨timer, ⟨ht, -⟩, hs⟩)
    · exact .inl h
    · cases he
      exact .inr ⟨timer, ht, hs⟩
    · exact .inr ⟨timer, ht, hs⟩
  · rintro (h | ⟨timer, ht, hs⟩)
    · exact .inl (.inl h)
    · by_cases hn : timer.time = time
      · exact .inl (.inr ⟨task, ⟨timer, ⟨ht, by simpa using hn⟩, hs⟩, rfl⟩)
      · exact .inr ⟨timer, ⟨ht, by simpa using hn⟩, hs⟩

/-- Whatever is owed will run, no timer is overdue, and no task is there before its delivery. -/
structure Sound (m : Machine ν) : Prop where
  timely : ∀ timer ∈ m.timers, m.clock ≤ timer.time
  known : ∀ task, m.WillRun task → task.delivery < m.deliveries.length
  first : ∀ (id : Nat) (d : Delivery ν) (role : Role), m.deliveries[id]? = some d →
    d.stage = .arrived → m.WillRun ⟨id, role⟩ → role = .event
  tended : ∀ (id : Nat) (d : Delivery ν) (role : Role), m.deliveries[id]? = some d →
    d.owes = some role → m.WillRun ⟨id, role⟩

namespace Sound

theorem new (router : Router) (registry : CommandRegistry ν) :
    (Machine.new router registry).Sound := by
  constructor <;> simp [Machine.new, WillRun]

end Sound

/-- A turn makes up for what its own task was owed. -/
theorem turn_sound (ht : ∀ timer ∈ m.timers, m.clock ≤ timer.time)
    (hk : ∀ task, m.WillRun task → task.delivery < m.deliveries.length)
    (hf : ∀ (id : Nat) (d : Delivery ν) (role : Role), m.deliveries[id]? = some d →
      d.stage = .arrived → m.WillRun ⟨id, role⟩ → role = .event)
    (ho : ∀ (id : Nat) (d : Delivery ν) (role : Role), m.deliveries[id]? = some d →
      d.owes = some role → ⟨id, role⟩ ≠ task → m.WillRun ⟨id, role⟩) : (m.turn task).Sound := by
  rcases hd : m.delivery? task.delivery with _ | d
  · rw [turn_eq_of_none hd]
    refine ⟨ht, hk, hf, fun id e role he hr => ho id e role he hr ?_⟩
    rintro rfl
    cases (delivery?_of_getElem? he).symm.trans hd
  · refine ⟨fun timer h => ?_, fun other h => ?_, fun id e role he hs hw => ?_,
      fun id e role he hr => ?_⟩
    · rw [turn_eq_of_some hd] at h ⊢
      rcases List.mem_append.1 h with h | h
      · exact ht timer (List.mem_filter.1 h).1
      · obtain ⟨⟨time, role⟩, hr, rfl⟩ := List.mem_map.1 h
        exact d.poll_timers_le m.notes task.role _ hr
    · have hlen : (m.turn task).deliveries.length = m.deliveries.length :=
        (turn_evolves m task).length
      rw [hlen]
      rcases willRun_of_turn hd h with h | ⟨h, -⟩
      · exact hk other h
      · rw [h]
        exact lt_of_delivery? hd
    · by_cases hid : id = task.delivery
      · subst hid
        rw [deliveries_turn_self hd] at he
        cases he
        obtain ⟨f, hfound, rfl⟩ := delivery?_eq_some_iff.1 hd
        obtain ⟨harrived, heq⟩ := Delivery.poll_eq_of_arrived hs
        rw [Delivery.planned_stage] at harrived
        refine (willRun_of_turn hd hw).elim (hf _ f role hfound harrived) fun ⟨_, hwakes⟩ => ?_
        rw [heq] at hwakes
        simp [Effects.Wakes] at hwakes
      · rw [deliveries_turn_of_ne hid] at he
        exact hf id e role he hs ((willRun_of_turn hd hw).resolve_right fun hw => hid hw.1)
    · by_cases hid : id = task.delivery
      · subst hid
        rw [deliveries_turn_self hd] at he
        cases he
        obtain ⟨f, hfound, hplanned⟩ := delivery?_eq_some_iff.1 hd
        rcases d.poll_tends m.notes task.role role hr with hw | ⟨hne, hw⟩
        · exact willRun_turn_of_wakes hd hw
        · rw [← hplanned, Delivery.owes_planned] at hw
          refine (ho _ f role hfound hw fun he => hne (congrArg Task.role he).symm).turn
            fun _ e he => ?_
          rw [deliveries_turn_self hd] at he
          cases he
          exact Delivery.heeds_of_owes hr
      · rw [deliveries_turn_of_ne hid] at he
        refine (ho id e role he hr ?_).turn fun h => absurd h hid
        rintro rfl
        exact hid rfl

namespace Sound

/-- Sound is what has the same deliveries and tasks and is no later. -/
theorem of_willRun (h : m.Sound) (hd : n.deliveries = m.deliveries)
    (ht : ∀ timer ∈ n.timers, n.clock ≤ timer.time)
    (hw : ∀ task, n.WillRun task ↔ m.WillRun task) : n.Sound where
  timely := ht
  known := fun task hr => hd ▸ h.known task ((hw task).1 hr)
  first := fun id d role he hs hr => h.first id d role (hd ▸ he) hs ((hw _).1 hr)
  tended := fun id d role he ho => (hw _).2 (h.tended id d role (hd ▸ he) ho)

theorem perform (h : m.Sound) {job : Job ν} {queue : List (Job ν)} (hq : m.queue = job :: queue) :
    (({ m with queue } : Machine ν).perform job).Sound := by
  cases job with
  | task task =>
    have htaken : ∀ other, ({ m with queue } : Machine ν).WillRun other → m.WillRun other :=
      fun other => Or.imp_left fun ho => hq ▸ List.mem_cons_of_mem _ ho
    refine turn_sound h.timely (fun other ho => h.known other (htaken other ho))
      (fun id d role hd hs hw => h.first id d role hd hs (htaken _ hw))
      fun id d role hd ho hne => ?_
    · rcases h.tended id d role hd ho with hr | hr
      · rw [hq] at hr
        rcases List.mem_cons.1 hr with hr | hr
        · cases hr
          exact absurd rfl hne
        · exact .inl hr
      · exact .inr hr
  | addition addition =>
    obtain ⟨calls, logs, he⟩ := actAll_eq addition.run { m with queue }
    rw [Machine.perform, he]
    refine h.of_willRun rfl h.timely fun task => ?_
    simp [WillRun, hq]

theorem tick (h : m.Sound) (ht : m.tick? = some n) : n.Sound := by
  refine h.of_willRun ?_ ?_ fun task => willRun_tick_iff ht
  · obtain ⟨time, -, -, rfl⟩ := tick?_eq_some ht
    rfl
  · obtain ⟨time, -, hle, rfl⟩ := tick?_eq_some ht
    exact fun timer hr => hle timer (List.mem_filter.1 hr).1

theorem postOver (h : m.Sound) (event : Event) (transport : Transport) :
    (m.postOver event transport).Sound := by
  have hw : ∀ task, (m.postOver event transport).WillRun task ↔
      m.WillRun task ∨ task = ⟨m.deliveries.length, .event⟩ := by
    intro task
    simp only [WillRun, Machine.postOver, List.mem_append, List.mem_singleton, Job.task.injEq]
    exact or_right_comm
  refine ⟨h.timely, fun task ht => ?_, fun id d role hd hs hr => ?_, fun id d role hd ho => ?_⟩
  · have hlen : (m.postOver event transport).deliveries.length = m.deliveries.length + 1 :=
      List.length_append
    rw [hlen]
    rcases (hw task).1 ht with ht | rfl
    · exact Nat.lt_succ_of_lt (h.known task ht)
    · exact Nat.lt_succ_self _
  · rcases (hw _).1 hr with hr | he
    · rcases Registry.getElem?_concat_eq_some_iff.1 hd with hd | ⟨rfl, -⟩
      · exact h.first id d role hd hs hr
      · exact absurd (h.known _ hr) (Nat.lt_irrefl _)
    · exact congrArg Task.role he
  · rcases Registry.getElem?_concat_eq_some_iff.1 hd with hd | ⟨rfl, rfl⟩
    · exact (hw _).2 (.inl (h.tended id d role hd ho))
    · cases ho
      exact (hw _).2 (.inr rfl)

theorem take (h : m.Sound) (event : Event) (transport : Transport) :
    (m.take event transport).Sound := by
  refine ⟨h.timely, fun task ht => ?_, fun id d role hd hs hr => ?_, fun id d role hd ho => ?_⟩
  · exact Nat.lt_of_lt_of_le (h.known task ht) (by simp [Machine.take])
  · rcases Registry.getElem?_concat_eq_some_iff.1 hd with hd | ⟨rfl, -⟩
    · exact h.first id d role hd hs hr
    · exact absurd (h.known _ hr) (Nat.lt_irrefl _)
  · rcases Registry.getElem?_concat_eq_some_iff.1 hd with hd | ⟨rfl, rfl⟩
    · exact h.tended id d role hd ho
    · cases ho

theorem look (h : m.Sound) (id : Nat) : (m.turn ⟨id, .event⟩).Sound :=
  turn_sound h.timely h.known h.first fun id d role hd ho _ => h.tended id d role hd ho

theorem enter (h : m.Sound) (event : Event) (transport : Transport) :
    (m.enter event transport).Sound :=
  (h.take event transport).look _

end Sound

theorem Step.sound (hs : m.Step n) (h : m.Sound) : n.Sound := by
  cases hs with
  | job hq => exact h.perform hq
  | tick ht => exact h.tick ht
  | post event transport => exact h.postOver event transport
  | enter event transport => exact h.enter event transport
  | look id => exact h.look id
  | wait ms =>
    refine h.of_willRun rfl (fun timer ht => ?_) fun task => by simp [WillRun]
    rcases List.mem_append.1 ht with ht | ht
    · exact h.timely timer ht
    · simp [List.mem_singleton.1 ht]
  | addition a => exact h.of_willRun rfl h.timely fun task => by simp [WillRun]
  | aside registry notes calls logs => exact h.of_willRun rfl h.timely fun task => .rfl

/-- No step sets the clock back. -/
theorem Step.clock_le (hs : m.Step n) (h : m.Sound) : m.clock ≤ n.clock := by
  cases hs with
  | @job job queue hq => exact Nat.le_of_eq (clock_perform { m with queue } job).symm
  | tick ht =>
    obtain ⟨time, ⟨first, hfirst, htime⟩, -, rfl⟩ := tick?_eq_some ht
    exact htime ▸ h.timely first hfirst
  | post => exact Nat.le_refl _
  | enter event transport => exact Nat.le_of_eq (clock_turn (m.take event transport) _).symm
  | look => exact Nat.le_of_eq (clock_turn _ _).symm
  | wait => exact Nat.le_refl _
  | addition => exact Nat.le_refl _
  | aside => exact Nat.le_refl _

/-! ## What a step leaves alone -/

/-- One delivery is left alone: it is as it was, what becomes of it is settled no differently, and
no turn of it comes up. -/
structure Spares (m : Machine ν) (id : Nat) (n : Machine ν) : Prop where
  router : n.router = m.router
  registry : m.registry.Grows n.registry
  delivery : n.deliveries[id]? = m.deliveries[id]?
  willRun : ∀ role, n.WillRun ⟨id, role⟩ → m.WillRun ⟨id, role⟩

section Spares

variable {o : Machine ν} {id : Nat}

theorem Spares.trans (h : m.Spares id n) (h' : n.Spares id o) : m.Spares id o where
  router := h'.router.trans h.router
  registry := h.registry.trans h'.registry
  delivery := h'.delivery.trans h.delivery
  willRun := fun role hw => h.willRun role (h'.willRun role hw)

theorem spares_of_subset {queue : List (Job ν)} (hq : queue ⊆ m.queue) :
    m.Spares id { m with queue } :=
  ⟨rfl, .refl _, rfl, fun _ => Or.imp_left fun h => hq h⟩

theorem spares_concat (hlt : id < m.deliveries.length) (d : Delivery ν) :
    m.Spares id { m with deliveries := m.deliveries ++ [d] } :=
  ⟨rfl, .refl _, List.getElem?_append_left hlt, fun _ hw => hw⟩

/-- The turns of other deliveries leave it alone. -/
theorem spares_turn {task : Task} (hid : id ≠ task.delivery) : m.Spares id (m.turn task) where
  router := router_turn m task
  registry := registry_turn m task ▸ .refl _
  delivery := deliveries_turn_of_ne hid
  willRun := fun role hw => by
    rcases hd : m.delivery? task.delivery with _ | d
    · rwa [turn_eq_of_none hd] at hw
    · exact (willRun_of_turn hd hw).resolve_right fun hw => hid hw.1

theorem spares_perform {job : Job ν} (hj : ∀ role, job ≠ .task ⟨id, role⟩) :
    m.Spares id (m.perform job) := by
  cases job with
  | task task => exact spares_turn fun hid => hj task.role (by rw [hid])
  | addition addition =>
    obtain ⟨calls, logs, he⟩ := actAll_eq addition.run m
    rw [perform, he]
    exact ⟨rfl, .refl _, rfl, fun _ hw => hw⟩

theorem spares_tick (ht : m.tick? = some n) : m.Spares id n := by
  have hw : ∀ role, n.WillRun ⟨id, role⟩ → m.WillRun ⟨id, role⟩ :=
    fun _ => (willRun_tick_iff ht).1
  obtain ⟨time, -, -, rfl⟩ := tick?_eq_some ht
  exact ⟨rfl, .refl _, rfl, hw⟩

/-- A step leaves a delivery alone, or it is the turn of one of its own tasks. -/
theorem Step.spares_or_turn (hs : m.Step n) (hlt : id < m.deliveries.length) :
    m.Spares id n ∨ ∃ queue role, queue ⊆ m.queue
      ∧ n = ({ m with queue } : Machine ν).turn ⟨id, role⟩ := by
  cases hs with
  | @job job queue hq =>
    have hsub : queue ⊆ m.queue := hq ▸ List.subset_cons_self job queue
    by_cases hown : ∃ role, job = .task ⟨id, role⟩
    · obtain ⟨role, rfl⟩ := hown
      exact .inr ⟨queue, role, hsub, rfl⟩
    · exact .inl ((spares_of_subset hsub).trans (spares_perform (not_exists.1 hown)))
  | tick ht => exact .inl (spares_tick ht)
  | post event transport =>
    refine .inl ⟨rfl, .refl _, List.getElem?_append_left hlt, fun role hw => ?_⟩
    refine hw.imp_left fun hj => (List.mem_append.1 hj).resolve_right fun hj => ?_
    cases List.mem_singleton.1 hj
    exact Nat.lt_irrefl _ hlt
  | enter event transport =>
    have hother : id ≠ m.deliveries.length := Nat.ne_of_lt hlt
    exact .inl ((spares_concat hlt _).trans (spares_turn hother))
  | look other =>
    by_cases hid : id = other
    · subst hid
      exact .inr ⟨m.queue, .event, List.Subset.refl _, rfl⟩
    · exact .inl (spares_turn hid)
  | wait ms => exact .inl ⟨rfl, .refl _, rfl, fun role hw => by simpa [WillRun] using hw⟩
  | addition a => exact .inl ⟨rfl, .refl _, rfl, fun role hw => by simpa [WillRun] using hw⟩
  | aside hg => exact .inl ⟨rfl, hg, rfl, fun _ hw => hw⟩

end Spares

/-! ## Whatever was done to a machine -/

theorem Reaches.sound (hr : m.Reaches n) (h : m.Sound) : n.Sound := by
  induction hr with
  | refl => exact h
  | tail _ hs ih => exact hs.sound ih

theorem Reachable.sound (h : m.Reachable) : m.Sound := by
  obtain ⟨router, registry, hr⟩ := h
  exact hr.sound (.new router registry)

theorem Reachable.reaches (h : m.Reachable) (hr : m.Reaches n) : n.Reachable := by
  obtain ⟨router, registry, hm⟩ := h
  exact ⟨router, registry, hm.trans hr⟩

/-- What rests owes nothing. -/
theorem Sound.owes_eq_none (h : m.Sound) (hq : m.queue = []) (ht : m.tick? = none) {id : Nat}
    (hd : m.deliveries[id]? = some d) : d.owes = none := by
  by_contra ho
  obtain ⟨role, ho⟩ := Option.ne_none_iff_exists'.1 ho
  rcases h.tended id d role hd ho with hr | ⟨timer, hr, -⟩
  · simp [hq] at hr
  · simp [tick?_eq_none_iff.1 ht] at hr

/-- Whoever waits for a delivery that has started can have its outcome at last. -/
theorem Sound.runUntil_due (h : m.Sound) {id : Nat} (hd : m.deliveries[id]? = some d)
    (hs : d.stage ≠ .arrived) : (m.runUntil (due id)).due id = true := by
  rcases runUntil_rests m (due id) with hg | ⟨hq, ht⟩
  · exact hg
  · -- at rest the handler is over: a running one owes a turn
    obtain ⟨e, he, -, hstarted⟩ := (runUntil_evolves m (due id)).extends.started hd hs
    have howes := ((reaches_runUntil m (due id)).sound h).owes_eq_none hq ht he
    rw [due, he, Option.all_some, Delivery.isDue]
    rcases hstage : e.stage with _ | ⟨acts, ending⟩ | ending | rested | _
    · exact absurd hstage hstarted
    · simp [Delivery.owes, hstage] at howes
    · rfl
    · rfl
    · rfl

/-- Once the notices are flushed, none is kept back any more. -/
theorem Sound.flushNotices_quiet (h : m.Sound) {id : Nat}
    (hd : m.flushNotices.deliveries[id]? = some d) : d.isNotifying = false := by
  have hs : m.flushNotices.Sound := (reaches_flushNotices m).sound h
  rcases runUntil_rests m fun m => !m.deliveries.any Delivery.isNotifying with hg | ⟨hq, ht⟩
  · have hg : m.flushNotices.deliveries.any Delivery.isNotifying = false :=
      Bool.not_inj (hg : (!m.flushNotices.deliveries.any Delivery.isNotifying) = !false)
    exact Bool.eq_false_iff.2 (List.any_eq_false.1 hg d (List.mem_of_getElem? hd))
  · have ho := hs.owes_eq_none hq ht hd
    rw [Delivery.isNotifying]
    split
    · rename_i hn
      simp [Delivery.owes, hn] at ho
    · rfl

/-- Once every event is over, what nobody waits for has come to its end. -/
theorem Sound.settle_owes (h : m.Sound) {id : Nat} (hd : m.settle.deliveries[id]? = some d) :
    d.outcome.isSome = true ∨ d.owes = none := by
  have hs : m.settle.Sound := (reaches_settle m).sound h
  rcases runUntil_rests m fun m => m.deliveries.all fun d => d.outcome.isSome with hg | ⟨hq, ht⟩
  · exact .inl (List.all_eq_true.1 hg d (List.mem_of_getElem? hd))
  · exact .inr (hs.owes_eq_none hq ht hd)

end Machine

end SlashCommands
