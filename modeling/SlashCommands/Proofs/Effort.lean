import Mathlib.Algebra.Order.Ring.Nat
import Mathlib.Data.List.Basic
import Mathlib.Tactic.SplitIfs
import SlashCommands.Proofs.Turns

/-!
# Effort

What is left to do on a machine bounds the turns and jumps of the clock to come. A turn costs a
delivery at least what it leaves for others (`Delivery.poll_effort`), so every job and every jump
of the clock lowers the effort of the machine (`Machine.effort_perform_lt`,
`Machine.effort_tick_lt`). So a machine that runs ends where it should: all that is ready is done
(`Machine.drain_queue`), and a run stops at its goal or where nothing is left that could happen
(`Machine.runUntil_rests`).
-/

namespace SlashCommands

variable {ν : Type}

/-! ## One delivery -/

namespace Delivery

/-- A bound on what a delivery has yet to do. -/
def effort (d : Delivery ν) : Nat :=
  Machine.Stage.effort d.stage d.plan

end Delivery

/-- What a turn leaves for others, in jobs and jumps of the clock. -/
def Effects.load (e : Effects ν) : Nat :=
  e.ready.length + 2 * e.timers.length

theorem Burst.asleep_length {history : List ν} {ending : Ending} {ms : Nat} {rest : List (Act ν)} :
    ∀ (acts : List (Act ν)) {x : Exchange} {notes : List ν},
      (Burst.run history ending x notes acts).pause = .asleep ms rest → rest.length < acts.length
  | [], x, notes, h => by
    rw [run] at h
    cases h
  | .call make :: acts, x, notes, h => by
    rw [run] at h
    split at h
    · have := asleep_length acts h
      simp only [List.length_cons]
      omega
    · cases h
  | .attempt make :: acts, x, notes, h => by
    rw [run] at h
    have := asleep_length acts h
    simp only [List.length_cons]
    omega
  | .sleep wait :: acts, x, notes, h => by
    rw [run] at h
    split_ifs at h
    · have := asleep_length acts h
      simp only [List.length_cons]
      omega
    · cases h
      simp
  | .note make :: acts, x, notes, h => by
    rw [run] at h
    have := asleep_length acts h
    simp only [List.length_cons]
    omega

namespace Delivery

variable {router : Router} {clock : Nat}

theorem conclude_effort {d : Delivery ν} (h : 4 ≤ d.effort) (ending : Ending) :
    (d.conclude ending).1.effort + (d.conclude ending).2.load ≤ d.effort := by
  rw [conclude]
  split
  · rename_i command path _ _
    cases ending with
    | done suggestions => simp [concludeAction, settle, effort, Machine.Stage.effort, Effects.load]
    | failed failure =>
      have : (d.concludeAction command path (.failed failure)).1.effort
          + (d.concludeAction command path (.failed failure)).2.load = 4 := rfl
      omega
  · cases ending <;>
      simp [concludeCompletion, settle, effort, Machine.Stage.effort, Effects.load]
  · simp [Effects.load]

theorem start_effort {d : Delivery ν} {program : Program ν}
    (h : d.effort = 3 * program.acts.length + 11) :
    (d.start router clock program).1.effort + (d.start router clock program).2.load
      ≤ d.effort := by
  rw [start]
  split
  · rw [h]
    simp [effort, Machine.Stage.effort, Effects.load]
  · exact conclude_effort (by omega) _
  · rw [h]
    simp [effort, Machine.Stage.effort, Effects.load]

theorem receive_effort {d : Delivery ν} (h : d.stage = .arrived) :
    (d.receive router clock).1.effort + (d.receive router clock).2.load ≤ d.effort := by
  rw [receive]
  split
  · simp [settle, effort, Machine.Stage.effort, Effects.load]
  · simp [settle, effort, Machine.Stage.effort, Effects.load]
  · simp [settle, effort, Machine.Stage.effort, Effects.load]
  · simp [settle, effort, Machine.Stage.effort, Effects.load]
  · rename_i hp
    exact start_effort (by rw [effort, h, hp, Machine.Stage.effort])
  · rename_i hp
    exact start_effort (by rw [effort, h, hp, Machine.Stage.effort])

theorem pollEvent_effort (d : Delivery ν) :
    (d.pollEvent router clock).1.effort + (d.pollEvent router clock).2.load ≤ d.effort := by
  rw [pollEvent]
  split
  · exact receive_effort ‹_›
  · rename_i acts ending hs
    split_ifs
    · refine conclude_effort ?_ _
      rw [effort, hs, Machine.Stage.effort]
      omega
    · simp [Effects.load]
  · rename_i ending hs
    refine conclude_effort ?_ _
    rw [effort, hs, Machine.Stage.effort]
    omega
  · simp [Effects.load]

theorem pollHandler_effort (d : Delivery ν) (history : List ν) :
    (d.pollHandler clock history).1.effort + (d.pollHandler clock history).2.load ≤ d.effort := by
  rw [pollHandler]
  split
  · rename_i acts ending hs
    dsimp only
    split
    · rename_i ms rest hp
      have := Burst.asleep_length acts hp
      simp only [effort, hs, Machine.Stage.effort, Effects.load, List.length_nil,
        List.length_singleton]
      omega
    · simp only [effort, hs, Machine.Stage.effort, Effects.load, List.length_nil]
      split_ifs <;> simp
  · simp [Effects.load]

theorem pollNotice_effort (d : Delivery ν) :
    (d.pollNotice router clock).1.effort + (d.pollNotice router clock).2.load ≤ d.effort := by
  rw [pollNotice]
  split
  · rename_i rested hs
    cases rested with
    | false => split_ifs <;> simp [effort, hs, Machine.Stage.effort, Effects.load]
    | true => simp [effort, hs, Machine.Stage.effort, Effects.load]
  · simp [Effects.load]

theorem poll_effort (d : Delivery ν) (history : List ν) (role : Role) :
    (d.poll router clock history role).1.effort + (d.poll router clock history role).2.load
      ≤ d.effort := by
  cases role with
  | event => exact d.pollEvent_effort
  | handler => exact d.pollHandler_effort history
  | notice => exact d.pollNotice_effort

end Delivery

/-! ## The whole machine -/

namespace Machine

variable {m n : Machine ν}

theorem effort_eq (m : Machine ν) : m.effort
    = m.queue.length + 2 * m.timers.length
      + (m.deliveries.map fun d => (d.planned m.router m.registry).effort).sum := by
  rw [effort, List.sum_eq_foldr, List.foldr_map]
  simp only [Delivery.effort, Delivery.planned_stage]

theorem sum_map_set {α : Type} (f : α → Nat) : ∀ {xs : List α} {i : Nat} {x : α} (y : α),
    xs[i]? = some x → ((xs.set i y).map f).sum + f x = (xs.map f).sum + f y
  | [], _, _, _, h => by simp at h
  | z :: xs, 0, x, y, h => by
    obtain rfl : z = x := by simpa using h
    simp only [List.set_cons_zero, List.map_cons, List.sum_cons]
    omega
  | z :: xs, i + 1, x, y, h => by
    have hx : xs[i]? = some x := by simpa using h
    have := sum_map_set f y hx
    simp only [List.set_cons_succ, List.map_cons, List.sum_cons]
    omega

theorem effort_turn_le (m : Machine ν) (task : Task) : (m.turn task).effort ≤ m.effort := by
  rcases hd : m.delivery? task.delivery with _ | d
  · rw [turn_eq_of_none hd]
  · have hp : (d.poll m.router m.clock m.notes task.role).1.effort
        + (d.poll m.router m.clock m.notes task.role).2.load ≤ d.effort :=
      d.poll_effort m.notes task.role
    obtain ⟨e, he, hplanned⟩ := delivery?_eq_some_iff.1 hd
    have hs := sum_map_set (fun d => (d.planned m.router m.registry).effort)
      (d.poll m.router m.clock m.notes task.role).1 he
    rw [hplanned, Delivery.poll_planned (planned_eq_of_delivery? hd)] at hs
    have hf := List.length_filter_le
      (keeps task.delivery (d.poll m.router m.clock m.notes task.role).1.stage) m.timers
    rw [turn_eq_of_some hd]
    simp only [effort_eq, List.length_append, List.length_map]
    rw [Effects.load] at hp
    omega

theorem effort_actAll : ∀ (as : List Activity) (m : Machine ν), (m.actAll as).effort = m.effort
  | [], _ => rfl
  | a :: as, m => by
    have ha : (m.act a).effort = m.effort := by cases a <;> rfl
    exact (effort_actAll as (m.act a)).trans ha

theorem effort_perform_lt {job : Job ν} {queue : List (Job ν)} (h : m.queue = job :: queue) :
    (({ m with queue } : Machine ν).perform job).effort < m.effort := by
  have hq : ({ m with queue } : Machine ν).effort + 1 = m.effort := by
    simp only [effort_eq, h, List.length_cons]
    omega
  cases job with
  | task task =>
    have := effort_turn_le { m with queue } task
    rw [perform]
    omega
  | addition addition =>
    have := effort_actAll addition.run { m with queue }
    rw [perform]
    omega

theorem effort_drainWith_le : ∀ (fuel : Nat) (m : Machine ν), (drainWith fuel m).effort ≤ m.effort
  | 0, _ => Nat.le_refl _
  | fuel + 1, m => by
    rw [drainWith]
    split
    · exact Nat.le_refl _
    · rename_i job queue hq
      have := effort_perform_lt hq
      have := effort_drainWith_le fuel (({ m with queue } : Machine ν).perform job)
      omega

theorem drainWith_queue : ∀ (fuel : Nat) (m : Machine ν), m.effort ≤ fuel →
    (drainWith fuel m).queue = []
  | 0, m, h => by
    rw [effort_eq] at h
    exact List.length_eq_zero_iff.1 (by rw [drainWith]; omega)
  | fuel + 1, m, h => by
    rw [drainWith]
    split
    · assumption
    · rename_i job queue hq
      have := effort_perform_lt hq
      exact drainWith_queue fuel _ (by omega)

/-- All that is ready gets done. -/
theorem drain_queue (m : Machine ν) : m.drain.queue = [] :=
  drainWith_queue _ m (Nat.le_refl _)

theorem tick?_eq_none_iff : m.tick? = none ↔ m.timers = [] := by
  rw [tick?, Option.map_eq_none_iff, nextTime?, List.min?_eq_none_iff, List.map_eq_nil_iff]

/-- What a jump of the clock does. -/
theorem tick?_eq_some (h : m.tick? = some n) :
    ∃ time, (∃ timer ∈ m.timers, timer.time = time) ∧ (∀ timer ∈ m.timers, time ≤ timer.time)
      ∧ n = { m with
        clock := time
        queue := m.queue
          ++ ((m.timers.filter fun timer => timer.time == time).filterMap Timer.task).map Job.task
        timers := m.timers.filter fun timer => !(timer.time == time) } := by
  obtain ⟨time, ht, rfl⟩ := Option.map_eq_some_iff.1 h
  obtain ⟨hmem, hle⟩ := List.min?_eq_some_iff.1 ht
  refine ⟨time, by simpa using hmem, fun timer htimer => ?_, ?_⟩
  · exact hle timer.time (List.mem_map_of_mem htimer)
  · simp [List.partition_eq_filter_filter, Function.comp_def]

theorem effort_tick_lt (h : m.tick? = some n) : n.effort < m.effort := by
  obtain ⟨time, ⟨timer, hmem, htime⟩, -, rfl⟩ := tick?_eq_some h
  have hdue : 0 < (m.timers.filter fun timer => timer.time == time).length :=
    List.length_pos_of_mem (List.mem_filter.2 ⟨hmem, by simpa using htime⟩)
  have hsplit := List.length_eq_length_filter_add (l := m.timers) fun timer => timer.time == time
  have hwoken := List.length_filterMap_le Timer.task
    (m.timers.filter fun timer => timer.time == time)
  simp only [effort_eq, List.length_append, List.length_map]
  omega

theorem runWith_rests (goal : Machine ν → Bool) : ∀ (fuel : Nat) (m : Machine ν), m.effort < fuel →
    goal (runWith goal fuel m) = true
      ∨ (runWith goal fuel m).queue = [] ∧ (runWith goal fuel m).tick? = none
  | 0, m, h => absurd h (Nat.not_lt_zero _)
  | fuel + 1, m, h => by
    have hd : m.drain.effort ≤ m.effort := effort_drainWith_le _ m
    rw [runWith]
    split_ifs with hg
    · exact .inl hg
    · dsimp only
      split_ifs with hg'
      · exact .inl hg'
      · split
        · rename_i n hn
          have := effort_tick_lt hn
          exact runWith_rests goal fuel n (by omega)
        · exact .inr ⟨m.drain_queue, ‹_›⟩

/-- A run ends at its goal, or where nothing is left that could happen. -/
theorem runUntil_rests (m : Machine ν) (goal : Machine ν → Bool) :
    goal (m.runUntil goal) = true
      ∨ (m.runUntil goal).queue = [] ∧ (m.runUntil goal).tick? = none :=
  runWith_rests goal _ m (Nat.lt_succ_self _)

/-! ## What a run keeps -/

theorem drainWith_keeps {P : Machine ν → Prop}
    (hjob : ∀ m job queue, P m → m.queue = job :: queue →
      P (({ m with queue } : Machine ν).perform job)) :
    ∀ (fuel : Nat) {m : Machine ν}, P m → P (drainWith fuel m)
  | 0, _, h => h
  | fuel + 1, m, h => by
    rw [drainWith]
    split
    · exact h
    · exact drainWith_keeps hjob fuel (hjob m _ _ h ‹_›)

/-- What every job keeps, and every jump of the clock short of the goal, a run keeps. -/
theorem runWith_keeps {goal : Machine ν → Bool} {P : Machine ν → Prop}
    (hjob : ∀ m job queue, P m → m.queue = job :: queue →
      P (({ m with queue } : Machine ν).perform job))
    (htick : ∀ m n, P m → goal m = false → m.queue = [] → m.tick? = some n → P n) :
    ∀ (fuel : Nat) {m : Machine ν}, P m → P (runWith goal fuel m)
  | 0, _, h => h
  | fuel + 1, m, h => by
    rw [runWith]
    split_ifs
    · exact h
    · have hd : P m.drain := drainWith_keeps hjob _ h
      dsimp only
      split_ifs with hg
      · exact hd
      · split
        · rename_i n hn
          exact runWith_keeps hjob htick fuel
            (htick _ n hd (by simpa using hg) m.drain_queue hn)
        · exact hd

/-- A run that meets its goal by a jump of the clock stops there. -/
theorem runWith_stops {goal : Machine ν → Bool} {P R : Machine ν → Prop}
    (hjob : ∀ m job queue, P m → m.queue = job :: queue →
      P (({ m with queue } : Machine ν).perform job))
    (htick : ∀ m n, P m → goal m = false → m.queue = [] → m.tick? = some n →
      P n ∨ goal n = true ∧ R n) :
    ∀ (fuel : Nat) {m : Machine ν}, P m → P (runWith goal fuel m) ∨ R (runWith goal fuel m)
  | 0, _, h => .inl h
  | fuel + 1, m, h => by
    rw [runWith]
    split_ifs
    · exact .inl h
    · have hd : P m.drain := drainWith_keeps hjob _ h
      dsimp only
      split_ifs with hg
      · exact .inl hd
      · split
        · rename_i n hn
          rcases htick _ n hd (by simpa using hg) m.drain_queue hn with hp | ⟨hgoal, hr⟩
          · exact runWith_stops hjob htick fuel hp
          · have hstop : runWith goal fuel n = n := by
              cases fuel with
              | zero => rfl
              | succ fuel => rw [runWith, if_pos hgoal]
            rw [hstop]
            exact .inr hr
        · exact .inl hd

end Machine

end SlashCommands
