import SlashCommands.Proofs.HandlerRun
import SlashCommands.Proofs.SoundMachine

/-!
# Handlers that wake up on time

Left to itself, a machine moves the clock only when nothing is ready, and no further than to the
next timer. So while somebody waits for a handler, it has its next turn as soon as it has slept
(`Machine.Prompt`), and the clock has not moved on by more than the handler has slept itself.
-/

namespace SlashCommands

variable {ν : Type}

/-! ## One turn -/

/-- A handler that falls asleep has no time to lose but what it sleeps. -/
theorem Burst.duration_of_asleep {history : List ν} {ending : Ending} {ms : Nat}
    {rest : List (Act ν)} : ∀ (acts : List (Act ν)) {x : Exchange} {notes : List ν},
      (Burst.run history ending x notes acts).pause = .asleep ms rest →
        Act.duration acts = ms + Act.duration rest
  | [], x, notes, h => by
    rw [run] at h
    cases h
  | .call make :: acts, x, notes, h => by
    rw [run] at h
    split at h
    · simpa [Act.span] using duration_of_asleep acts h
    · cases h
  | .attempt make :: acts, x, notes, h => by
    rw [run] at h
    simpa [Act.span] using duration_of_asleep acts h
  | .sleep wait :: acts, x, notes, h => by
    rw [run] at h
    split_ifs at h with hw
    · simpa [Act.span, hw] using duration_of_asleep acts h
    · cases h
      simp [Act.span]
  | .note make :: acts, x, notes, h => by
    rw [run] at h
    simpa [Act.span] using duration_of_asleep acts h

namespace Delivery

variable {router : Router} {clock : Nat} {d : Delivery ν} {acts : List (Act ν)} {ending : Ending}

theorem conclude_eq_of_running {ending' : Ending}
    (h : (d.conclude ending').1.stage = .running acts ending) : d.conclude ending' = (d, {}) := by
  rw [conclude] at h ⊢
  split at h
  · cases ending' <;> simp [concludeAction, settle] at h
  · cases ending' <;> simp [concludeCompletion, settle] at h
  · rfl

/-- A handler that is started has all to do, and a turn to come. -/
theorem start_running {program : Program ν} (hs : d.stage = .arrived)
    (h : (d.start router clock program).1.stage = .running acts ending) :
    acts = program.acts ∧ .handler ∈ (d.start router clock program).2.ready := by
  rcases hl : router.timeLimit with _ | _ | limit <;> simp only [start, hl] at h ⊢
  · cases h
    exact ⟨rfl, List.mem_singleton.2 rfl⟩
  · rw [conclude_eq_of_running h, hs] at h
    cases h
  · cases h
    exact ⟨rfl, List.mem_singleton.2 rfl⟩

/-- A handler is at work after its turn only if it sleeps. -/
theorem pollHandler_running {history : List ν}
    (h : (d.pollHandler clock history).1.stage = .running acts ending) :
    ∃ before ms, d.stage = .running before ending
      ∧ Act.duration before = ms + Act.duration acts
      ∧ (clock + ms, .handler) ∈ (d.pollHandler clock history).2.timers := by
  rcases hs : d.stage with _ | ⟨before, ending'⟩ | ending' | rested | _ <;>
    simp only [pollHandler, hs, reduceCtorEq] at h ⊢
  rcases hp : (Burst.run history ending' d.exchange [] before).pause with ⟨ms, rest⟩ | ending'' <;>
    simp only [hp, reduceCtorEq] at h ⊢
  cases h
  exact ⟨before, ms, rfl, Burst.duration_of_asleep before hp, List.mem_singleton.2 rfl⟩

/-- Other tasks leave the handler of a started delivery at work, or conclude. -/
theorem poll_eq_of_running {role : Role} (hs : d.stage ≠ .arrived) (hr : role ≠ .handler)
    (history : List ν)
    (h : (d.poll router clock history role).1.stage = .running acts ending) :
    d.poll router clock history role = (d, {}) := by
  cases role with
  | event =>
    rw [poll, pollEvent] at h ⊢
    split at h
    · exact absurd ‹_› hs
    · split_ifs at h ⊢
      · exact conclude_eq_of_running h
      · rfl
    · exact conclude_eq_of_running h
    · rfl
  | handler => exact absurd rfl hr
  | notice =>
    rw [poll, pollNotice] at h ⊢
    split at h
    · split_ifs at h
    · rfl

end Delivery

/-! ## While somebody waits -/

namespace Machine

variable {m n : Machine ν} {id since : Nat} {program : Program ν} {d : Delivery ν}

/-- A handler that was started at some time is as far as the clock, and has a turn to come as soon
as it has slept. -/
structure Prompt (m : Machine ν) (id since : Nat) (program : Program ν) (d : Delivery ν) :
    Prop where
  found : m.deliveries[id]? = some d
  started : d.stage ≠ .arrived
  clock : ∀ acts ending, d.stage = .running acts ending →
    m.clock + Act.duration acts ≤ since + Act.duration program.acts
  wakes : ∀ acts ending, d.stage = .running acts ending →
    .task ⟨id, .handler⟩ ∈ m.queue ∨ ∃ timer ∈ m.timers, timer.task = some ⟨id, .handler⟩
      ∧ timer.time + Act.duration acts ≤ since + Act.duration program.acts

/-- Its first turn starts the handler. -/
theorem prompt_enter {event : Event} {transport : Transport}
    (hp : (m.router.plan m.registry event).program? = some program) :
    ∃ d, (m.enter event transport).Prompt m.deliveries.length m.clock program d := by
  let arriving : Delivery ν := .arriving event transport (m.router.plan m.registry event) true
  have hd : (m.take event transport).delivery?
      (⟨m.deliveries.length, .event⟩ : Task).delivery = some arriving :=
    m.delivery?_take event transport
  have hpoll : arriving.poll m.router m.clock m.notes .event
      = arriving.start m.router m.clock program := Delivery.receive_of_program hp
  refine ⟨_, m.deliveries_enter event transport, arriving.pollEvent_started,
    fun acts ending hs => ?_, fun acts ending hs => ?_⟩
  · rw [← Delivery.poll, hpoll] at hs
    obtain ⟨rfl, -⟩ := Delivery.start_running rfl hs
    exact Nat.le_of_eq (congrArg (· + _) (clock_turn _ _))
  · rw [← Delivery.poll, hpoll] at hs
    obtain ⟨-, hready⟩ := Delivery.start_running rfl hs
    rw [← hpoll] at hready
    rw [enter, turn_eq_of_some hd]
    exact .inl (List.mem_append_right _ (List.mem_map_of_mem hready))

namespace Prompt

theorem delivery? (h : m.Prompt id since program d) : m.delivery? id = some d :=
  (delivery?_iff_of_started h.started).2 h.found

/-- The turn of another task leaves the handler where it is. -/
theorem turn (h : m.Prompt id since program d) {task : Task} (hne : task ≠ ⟨id, .handler⟩) :
    ∃ e, (m.turn task).Prompt id since program e := by
  -- a handler that is at work afterwards was so before, and a timer that it heeds is kept
  suffices hturn : ∃ e, (m.turn task).deliveries[id]? = some e ∧ e.stage ≠ .arrived
      ∧ ∀ acts ending, e.stage = .running acts ending → e = d by
    obtain ⟨e, he, hstarted, hsame⟩ := hturn
    refine ⟨e, he, hstarted, fun acts ending hs => ?_, fun acts ending hs => ?_⟩
    · obtain rfl := hsame acts ending hs
      rw [clock_turn]
      exact h.clock acts ending hs
    · obtain rfl := hsame acts ending hs
      refine (h.wakes acts ending hs).imp (fun hm => mem_queue_turn hm task)
        fun ⟨timer, hm, htask, htime⟩ => ?_
      refine ⟨timer, mem_timers_turn hm htask fun hid f hf => ?_, htask, htime⟩
      have hid : id = task.delivery := hid
      rw [← hid, he, Option.some.injEq] at hf
      rw [← hf, hs]
      rfl
  by_cases hid : id = task.delivery
  · subst hid
    refine ⟨_, deliveries_turn_self h.delivery?, Delivery.poll_started h.started _ _,
      fun acts ending hs => ?_⟩
    have hrole : task.role ≠ .handler := by
      intro hrole
      exact hne (by rw [← hrole])
    rw [Delivery.poll_eq_of_running h.started hrole m.notes hs]
  · exact ⟨d, (deliveries_turn_of_ne hid).trans h.found, h.started, fun _ _ _ => rfl⟩

/-- The handler goes on until it sleeps or ends. -/
theorem turn_handler (hd : m.deliveries[id]? = some d) (hs : d.stage ≠ .arrived)
    (hc : ∀ acts ending, d.stage = .running acts ending →
      m.clock + Act.duration acts ≤ since + Act.duration program.acts) :
    ∃ e, (m.turn ⟨id, .handler⟩).Prompt id since program e := by
  have hd : m.delivery? (⟨id, .handler⟩ : Task).delivery = some d :=
    (delivery?_iff_of_started hs).2 hd
  refine ⟨_, deliveries_turn_self hd, Delivery.poll_started hs _ _, fun acts ending hrun => ?_,
    fun acts ending hrun => ?_⟩
  · obtain ⟨before, ms, hbefore, hslept, -⟩ := Delivery.pollHandler_running hrun
    have := hc before ending hbefore
    rw [clock_turn]
    omega
  · obtain ⟨before, ms, hbefore, hslept, htimer⟩ := Delivery.pollHandler_running hrun
    have := hc before ending hbefore
    rw [turn_eq_of_some hd]
    refine .inr ⟨_, List.mem_append_right _ (List.mem_map_of_mem htimer), rfl, ?_⟩
    dsimp only
    omega

theorem perform (h : m.Prompt id since program d) {job : Job ν} {queue : List (Job ν)}
    (hq : m.queue = job :: queue) :
    ∃ e, (({ m with queue } : Machine ν).perform job).Prompt id since program e := by
  by_cases hj : job = .task ⟨id, .handler⟩
  · subst hj
    exact turn_handler (m := { m with queue }) h.found h.started h.clock
  · have htaken : ({ m with queue } : Machine ν).Prompt id since program d := by
      refine ⟨h.found, h.started, h.clock, fun acts ending hs => (h.wakes acts ending hs).imp_left
        fun hm => ?_⟩
      rw [hq] at hm
      exact (List.mem_cons.1 hm).resolve_left (Ne.symm hj)
    cases job with
    | task task => exact htaken.turn fun ht => hj (congrArg _ ht)
    | addition addition =>
      obtain ⟨calls, logs, he⟩ := actAll_eq addition.run { m with queue }
      rw [Machine.perform, he]
      exact ⟨d, htaken.found, htaken.started, htaken.clock, htaken.wakes⟩

/-- The clock moves no further than to the time at which the handler wakes up. -/
theorem tick (h : m.Prompt id since program d) (hq : m.queue = []) (ht : m.tick? = some n) :
    n.Prompt id since program d := by
  obtain ⟨time, -, hle, rfl⟩ := tick?_eq_some ht
  have hwakes : ∀ acts ending, d.stage = .running acts ending →
      ∃ timer ∈ m.timers, timer.task = some ⟨id, .handler⟩
        ∧ timer.time + Act.duration acts ≤ since + Act.duration program.acts :=
    fun acts ending hs => (h.wakes acts ending hs).resolve_left (by simp [hq])
  refine ⟨h.found, h.started, fun acts ending hs => ?_, fun acts ending hs => ?_⟩
  · obtain ⟨timer, hm, -, htime⟩ := hwakes acts ending hs
    exact Nat.le_trans (Nat.add_le_add_right (hle timer hm) _) htime
  · obtain ⟨timer, hm, htask, htime⟩ := hwakes acts ending hs
    by_cases hdue : timer.time = time
    · refine .inl (List.mem_append_right _ (List.mem_map_of_mem ?_))
      exact List.mem_filterMap.2 ⟨timer, List.mem_filter.2 ⟨hm, by simpa using hdue⟩, htask⟩
    · exact .inr ⟨timer, List.mem_filter.2 ⟨hm, by simpa using hdue⟩, htask, htime⟩

/-- Who finds the time limit over while the handler is at work, finds that it has slept so long. -/
theorem tooSlow (h : m.Prompt id since program d) {limit : Nat} {rest : List (Act ν)}
    (hl : d.left? program = some rest) (hlate : m.router.Late since m.clock limit rest) :
    m.router.TooSlow program since m.clock limit rest := by
  refine ⟨hlate, ?_⟩
  rw [Delivery.left?] at hl
  rcases hs : d.stage with _ | ⟨acts, ending⟩ | ending | rested | _ <;> rw [hs] at hl
  · exact absurd hs h.started
  · cases hl
    have := h.clock _ _ hs
    have := hlate.2
    omega
  · cases hl
  · cases hl
  · cases hl

end Prompt

end Machine

end SlashCommands
