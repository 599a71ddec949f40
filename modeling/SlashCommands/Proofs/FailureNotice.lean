import SlashCommands.Proofs.HandlerRun
import SlashCommands.Proofs.Rejections
import SlashCommands.Proofs.SoundMachine

/-!
# Notices of failures

What follows when a handler is over, on a machine where anything else may happen meanwhile. If it
failed, one notice is on its way (`Machine.Noticing`): its task is queued once, then waits for a
timer that is not set for earlier than the delay allows, then has spoken. Every step keeps this
(`Machine.Step.failing`), and flushing the notices leads to its end. So a failure is told once, by
the message that fits what went through, and what is completed is left alone
(`Machine.Ended.toOver`).
-/

namespace SlashCommands

variable {ν : Type}

/-! ## Jobs that are queued once -/

/-- The job stands in the queue at one place only. -/
def Job.Once (job : Job ν) (queue : List (Job ν)) : Prop :=
  ∃ before after, queue = before ++ job :: after ∧ job ∉ before ∧ job ∉ after

namespace Job.Once

variable {job first : Job ν} {queue more : List (Job ν)}

theorem append (h : job.Once queue) (hm : job ∉ more) : job.Once (queue ++ more) := by
  obtain ⟨before, after, rfl, hb, ha⟩ := h
  refine ⟨before, after ++ more, by simp, hb, fun h => ?_⟩
  exact (List.mem_append.1 h).elim ha hm

theorem concat (h : job ∉ queue) : job.Once (queue ++ [job]) :=
  ⟨queue, [], rfl, h, by simp⟩

theorem not_mem_of_cons (h : job.Once (job :: queue)) : job ∉ queue := by
  obtain ⟨_ | ⟨first, before⟩, after, he, hb, ha⟩ := h
  · cases he
    exact ha
  · cases he
    exact absurd List.mem_cons_self hb

theorem of_cons (h : job.Once (first :: queue)) (hf : first ≠ job) : job.Once queue := by
  obtain ⟨_ | ⟨_, before⟩, after, he, hb, ha⟩ := h
  · cases he
    exact absurd rfl hf
  · cases he
    exact ⟨before, after, rfl, fun h => hb (List.mem_cons_of_mem _ h), ha⟩

end Job.Once

namespace Machine

open Delivery

variable {m n : Machine ν} {id since : Nat} {y : Exchange} {d : Delivery ν}

/-! ## After a failure -/

/-- How far the notice of a failure has come that happened at a time. -/
inductive Noticing (m : Machine ν) (id : Nat) (y : Exchange) (since : Nat) : Delivery ν → Prop
  | fresh {d : Delivery ν} (hs : d.stage = .notifying false) (hx : d.exchange = y)
    (hq : Job.Once (.task ⟨id, .notice⟩) m.queue)
    (ht : ∀ timer ∈ m.timers, timer.task ≠ some ⟨id, .notice⟩) (hc : since ≤ m.clock) :
    Noticing m id y since d
  | rested {d : Delivery ν} (hs : d.stage = .notifying true) (hx : d.exchange = y)
    (hq : .task ⟨id, .notice⟩ ∈ m.queue → since + m.router.noticeDelay ≤ m.clock)
    (ht : ∀ timer ∈ m.timers, timer.task = some ⟨id, .notice⟩ →
      since + m.router.noticeDelay ≤ timer.time) : Noticing m id y since d
  | told {d : Delivery ν} (hs : d.stage = .settled) (hx : d.exchange = Delivery.told m.router y)
    (hc : since + m.router.noticeDelay ≤ m.clock) : Noticing m id y since d

/-- A failure that the user is told of. -/
structure Failing (m : Machine ν) (id : Nat) (y : Exchange) (since : Nat) (d : Delivery ν) :
    Prop where
  found : m.deliveries[id]? = some d
  outcome : d.outcome = some .failed
  noticing : m.Noticing id y since d

theorem Noticing.started (h : m.Noticing id y since d) : d.stage ≠ .arrived := by
  cases h with
  | fresh hs => simp [hs]
  | rested hs => simp [hs]
  | told hs => simp [hs]

theorem Failing.delivery? (h : m.Failing id y since d) : m.delivery? id = some d :=
  (delivery?_iff_of_started h.noticing.started).2 h.found

/-- What does not touch the notice leaves it where it is. -/
theorem Noticing.frame (h : m.Noticing id y since d) (hr : n.router = m.router)
    (hc : m.clock ≤ n.clock) {more : List (Job ν)} (hq : n.queue = m.queue ++ more)
    (hm : .task ⟨id, .notice⟩ ∉ more)
    (ht : ∀ timer ∈ n.timers, timer.task = some ⟨id, .notice⟩ → timer ∈ m.timers) :
    n.Noticing id y since d := by
  cases h with
  | fresh hs hx hq' ht' hc' =>
    refine .fresh hs hx (hq ▸ hq'.append hm) (fun timer h he => ?_) (Nat.le_trans hc' hc)
    exact ht' timer (ht timer h he) he
  | rested hs hx hq' ht' =>
    rw [← hr] at hq' ht'
    refine .rested hs hx (fun h => ?_) fun timer h he => ht' timer (ht timer h he) he
    rw [hq] at h
    exact Nat.le_trans (hq' ((List.mem_append.1 h).resolve_right hm)) hc
  | told hs hx hc' => exact .told hs (hr ▸ hx) (hr ▸ Nat.le_trans hc' hc)

/-- The turn of another task leaves it too. -/
theorem Failing.turn (h : m.Failing id y since d) {task : Task} (hn : task ≠ ⟨id, .notice⟩) :
    (m.turn task).Failing id y since d := by
  rcases he : m.delivery? task.delivery with _ | e
  · rw [turn_eq_of_none he]
    exact h
  · by_cases hid : task.delivery = id
    · subst hid
      obtain rfl : d = e := Option.some.inj (h.delivery?.symm.trans he)
      have hrole : task.role ≠ .notice := by
        rintro hrole
        exact hn (by rw [← hrole])
      have hp : d.poll m.router m.clock m.notes task.role = (d, {}) := by
        cases h.noticing with
        | fresh hs => exact poll_of_notifying hs _ _ _ hrole
        | rested hs => exact poll_of_notifying hs _ _ _ hrole
        | told hs => exact poll_of_settled hs _ _
      refine ⟨?_, h.outcome, ?_⟩
      · rw [deliveries_turn_self he, hp]
      · rw [turn_eq_of_some he, hp]
        exact h.noticing.frame rfl (Nat.le_refl _) rfl (by simp) fun timer ht _ => by
          simpa using (List.mem_filter.1 (by simpa using ht)).1
    · refine ⟨?_, h.outcome, ?_⟩
      · rw [deliveries_turn_of_ne (Ne.symm hid), h.found]
      · rw [turn_eq_of_some he]
        refine h.noticing.frame rfl (Nat.le_refl _) rfl ?_ fun timer ht hk => ?_
        · simp [hid]
        · rcases List.mem_append.1 ht with ht | ht
          · exact (List.mem_filter.1 ht).1
          · obtain ⟨_, -, rfl⟩ := List.mem_map.1 ht
            exact absurd (congrArg Task.delivery (Option.some.inj hk)) hid

theorem Failing.dequeue (h : m.Failing id y since d) {job : Job ν} {queue : List (Job ν)}
    (hq : m.queue = job :: queue) (hj : job ≠ .task ⟨id, .notice⟩) :
    ({ m with queue } : Machine ν).Failing id y since d := by
  refine ⟨h.found, h.outcome, ?_⟩
  cases h.noticing with
  | fresh hs hx ho ht hc => exact .fresh hs hx ((hq ▸ ho).of_cons hj) ht hc
  | rested hs hx ho ht =>
    exact .rested hs hx (fun hm => ho (hq ▸ List.mem_cons_of_mem _ hm)) ht
  | told hs hx hc => exact .told hs hx hc

/-- Once its time has come, the notice goes out. -/
theorem failing_of_due (hd : m.deliveries[id]? = some d) (ho : d.outcome = some .failed)
    {rested : Bool} (hs : d.stage = .notifying rested)
    (hn : rested = true ∨ m.router.noticeDelay = 0) (hy : d.exchange.Faithful)
    (hc : since + m.router.noticeDelay ≤ m.clock) :
    ∃ e, (m.turn ⟨id, .notice⟩).Failing id d.exchange since e := by
  have hd : m.delivery? (⟨id, .notice⟩ : Task).delivery = some d :=
    (delivery?_iff_of_started (by simp [hs])).2 hd
  obtain ⟨logs, hp⟩ := pollNotice_of_rested hs m.clock hn hy
  refine ⟨_, deliveries_turn_self hd, ?_, ?_⟩
  · simp only [poll, hp]
    exact ho
  · simp only [turn_eq_of_some hd, poll, hp]
    exact .told rfl rfl hc

/-- The notice's own turn. -/
theorem Failing.notice (h : m.Failing id y since d) (hy : y.Faithful) {queue : List (Job ν)}
    (hq : m.queue = .task ⟨id, .notice⟩ :: queue) :
    ∃ e, (({ m with queue } : Machine ν).turn ⟨id, .notice⟩).Failing id y since e := by
  have hd : ({ m with queue } : Machine ν).delivery? (⟨id, .notice⟩ : Task).delivery = some d :=
    h.delivery?
  cases h.noticing with
  | fresh hs hx ho ht hc =>
    subst hx
    by_cases hdelay : 0 < m.router.noticeDelay
    · have hrest : .task ⟨id, .notice⟩ ∉ queue := (hq ▸ ho).not_mem_of_cons
      have hp := pollNotice_of_waits hs m.clock hdelay
      refine ⟨_, deliveries_turn_self hd, ?_, ?_⟩
      · simp only [poll, hp]
        exact h.outcome
      · simp only [turn_eq_of_some hd, poll, hp]
        refine .rested rfl rfl (fun hm => ?_) fun timer hm hk => ?_
        · exact absurd (by simpa using hm) hrest
        · rcases List.mem_append.1 hm with hm | hm
          · exact absurd hk (ht timer (List.mem_filter.1 hm).1)
          · obtain rfl := List.mem_singleton.1 hm
            exact Nat.add_le_add_right hc _
    · have hzero : m.router.noticeDelay = 0 := Nat.eq_zero_of_not_pos hdelay
      exact failing_of_due h.found h.outcome hs (.inr hzero) hy (by simpa [hzero] using hc)
  | rested hs hx ho ht =>
    subst hx
    exact failing_of_due h.found h.outcome hs (.inl rfl) hy (ho (hq ▸ List.mem_cons_self))
  | told hs hx hc =>
    have hp : d.poll m.router m.clock m.notes .notice = (d, {}) := poll_of_settled hs _ _
    refine ⟨_, deliveries_turn_self hd, ?_, ?_⟩
    · simp only [hp]
      exact h.outcome
    · simp only [turn_eq_of_some hd, hp]
      exact .told hs hx hc

theorem Failing.perform (h : m.Failing id y since d) (hy : y.Faithful) {job : Job ν}
    {queue : List (Job ν)} (hq : m.queue = job :: queue) :
    ∃ e, (({ m with queue } : Machine ν).perform job).Failing id y since e := by
  cases job with
  | task task =>
    by_cases ht : task = ⟨id, .notice⟩
    · subst ht
      exact h.notice hy hq
    · exact ⟨d, (h.dequeue hq fun hj => ht (Job.task.inj hj)).turn ht⟩
  | addition addition =>
    have hm := h.dequeue hq fun hj => by cases hj
    obtain ⟨calls, logs, he⟩ := actAll_eq addition.run { m with queue }
    rw [Machine.perform, he]
    refine ⟨d, hm.found, hm.outcome, ?_⟩
    exact hm.noticing.frame rfl (Nat.le_refl _) (List.append_nil _).symm (by simp)
      fun timer ht _ => ht

theorem Failing.tick (h : m.Failing id y since d) (hm : m.Sound) (ht : m.tick? = some n) :
    n.Failing id y since d := by
  obtain ⟨time, ⟨first, hfirst, htime⟩, hle, rfl⟩ := tick?_eq_some ht
  have hc : m.clock ≤ time := htime ▸ hm.timely first hfirst
  refine ⟨h.found, h.outcome, ?_⟩
  cases h.noticing with
  | fresh hs hx hq ht' hc' =>
    refine .fresh hs hx (hq.append fun hm => ?_) (fun timer hm => ?_) (Nat.le_trans hc' hc)
    · simp only [List.mem_map, List.mem_filterMap, List.mem_filter] at hm
      obtain ⟨task, ⟨timer, ⟨htimer, -⟩, htask⟩, he⟩ := hm
      cases he
      exact ht' timer htimer htask
    · exact ht' timer (List.mem_filter.1 hm).1
  | rested hs hx hq ht' =>
    refine .rested hs hx (fun hm => ?_) fun timer hm hk => ht' timer (List.mem_filter.1 hm).1 hk
    rcases List.mem_append.1 hm with hm | hm
    · exact Nat.le_trans (hq hm) hc
    · simp only [List.mem_map, List.mem_filterMap, List.mem_filter, beq_iff_eq] at hm
      obtain ⟨task, ⟨timer, ⟨htimer, rfl⟩, htask⟩, he⟩ := hm
      cases he
      exact ht' timer htimer htask
  | told hs hx hc' => exact .told hs hx (Nat.le_trans hc' hc)

/-- Whatever happens to the machine, the notice takes its course. -/
theorem Step.failing (hs : m.Step n) (hm : m.Sound) (hy : y.Faithful)
    (h : m.Failing id y since d) : ∃ e, n.Failing id y since e := by
  have hlt : id < m.deliveries.length := (List.getElem?_eq_some_iff.1 h.found).1
  cases hs with
  | job hq => exact h.perform hy hq
  | tick ht => exact ⟨d, h.tick hm ht⟩
  | post event transport =>
    refine ⟨d, ?_, h.outcome, ?_⟩
    · exact (List.getElem?_append_left hlt).trans h.found
    · exact h.noticing.frame rfl (Nat.le_refl _) rfl (by simp) fun timer ht _ => ht
  | enter event transport =>
    refine ⟨d, Failing.turn ⟨(List.getElem?_append_left hlt).trans h.found, h.outcome, ?_⟩
      (by simp)⟩
    exact h.noticing.frame rfl (Nat.le_refl _) (List.append_nil _).symm (by simp)
      fun timer ht _ => ht
  | look other => exact ⟨d, h.turn (by simp)⟩
  | wait ms =>
    refine ⟨d, h.found, h.outcome, ?_⟩
    refine h.noticing.frame rfl (Nat.le_refl _) (List.append_nil _).symm (by simp)
      fun timer ht hk => ?_
    rcases List.mem_append.1 ht with ht | ht
    · exact ht
    · simp [List.mem_singleton.1 ht] at hk
  | addition a =>
    exact ⟨d, h.found, h.outcome, h.noticing.frame rfl (Nat.le_refl _) rfl (by simp)
      fun timer ht _ => ht⟩
  | aside =>
    exact ⟨d, h.found, h.outcome, h.noticing.frame rfl (Nat.le_refl _) (List.append_nil _).symm
      (by simp) fun timer ht _ => ht⟩

theorem Reaches.failing (hr : m.Reaches n) (hm : m.Sound) (hy : y.Faithful)
    (h : m.Failing id y since d) : ∃ e, n.Failing id y since e := by
  induction hr with
  | refl => exact ⟨d, h⟩
  | tail hr hs ih =>
    obtain ⟨e, he⟩ := ih
    exact hs.failing (Reaches.sound hr hm) hy he

/-! ## What a whole run comes to -/

/-- The outcome of a delivery, once it has one. -/
def outcome? (m : Machine ν) (id : Nat) : Option Outcome :=
  (m.deliveries[id]?).bind Delivery.outcome

/-- What is left when a handler is over. -/
inductive Ended (m : Machine ν) (id : Nat) (y : Exchange) (since : Nat) : Ending → Prop
  | done {d : Delivery ν} {suggestions : List Choice} (hd : m.deliveries[id]? = some d)
    (hc : d.Completed y) : Ended m id y since (.done suggestions)
  | failed {d : Delivery ν} {failure : Failure} (h : m.Failing id y since d) :
    Ended m id y since (.failed failure)

/-- The handler is over for good: what is completed stays as it is; a failure is told once, not
before the delay is over, and it is told when the notices are flushed. -/
def Over (m : Machine ν) (id : Nat) (y : Exchange) : Ending → Prop
  | .done _ => ∀ n, m.Reaches n →
    ∃ d, n.deliveries[id]? = some d ∧ d.outcome = some .completed ∧ d.exchange = y
  | .failed _ => ∀ n, m.Reaches n →
    (∃ d, n.deliveries[id]? = some d ∧ d.outcome = some .failed
      ∧ (d.exchange = y
        ∨ d.exchange = told m.router y ∧ m.clock + m.router.noticeDelay ≤ n.clock))
    ∧ ∃ d, n.flushNotices.deliveries[id]? = some d ∧ d.outcome = some .failed
      ∧ d.exchange = told m.router y

namespace Ended

variable {ending : Ending}

/-- Whatever happens to the machine, what is over stays over. -/
theorem reaches (h : m.Ended id y since ending) (hr : m.Reaches n) (hm : m.Sound)
    (hy : y.Faithful) : n.Ended id y since ending := by
  cases h with
  | done hd hc => exact .done ((Reaches.extends hr).settled hd hc.stage) hc
  | failed h =>
    obtain ⟨d, hd⟩ := Reaches.failing hr hm hy h
    exact .failed hd

theorem outcome_isSome (h : m.Ended id y since ending) : (m.outcome? id).isSome = true := by
  cases h with
  | done hd hc => simp [outcome?, hd, hc.outcome]
  | failed h => simp [outcome?, h.found, h.outcome]

theorem due (h : m.Ended id y since ending) : m.due id = true := by
  cases h with
  | done hd hc => simp [Machine.due, hd, isDue, hc.stage]
  | failed h =>
    cases h.noticing with
    | fresh hs => simp [Machine.due, h.found, isDue, hs]
    | rested hs => simp [Machine.due, h.found, isDue, hs]
    | told hs => simp [Machine.due, h.found, isDue, hs]

theorem toOver (h : m.Ended id y m.clock ending) (hm : m.Sound) (hy : y.Faithful) :
    m.Over id y ending := by
  cases h with
  | done hd hc =>
    intro n hr
    exact ⟨_, (Reaches.extends hr).settled hd hc.stage, hc.outcome, hc.exchange⟩
  | failed h =>
    intro n hr
    have hrouter : n.router = m.router := (Reaches.extends hr).router
    have hflush : n.flushNotices.router = m.router :=
      (Reaches.extends (reaches_flushNotices n)).router.trans hrouter
    obtain ⟨d, hd⟩ := Reaches.failing hr hm hy h
    obtain ⟨e, he⟩ := Reaches.failing (reaches_flushNotices n) (Reaches.sound hr hm) hy hd
    refine ⟨⟨d, hd.found, hd.outcome, ?_⟩, e, he.found, he.outcome, ?_⟩
    · cases hd.noticing with
      | fresh hs hx => exact .inl hx
      | rested hs hx => exact .inl hx
      | told hs hx hc => exact .inr ⟨hrouter ▸ hx, hrouter ▸ hc⟩
    · have hquiet := (Reaches.sound hr hm).flushNotices_quiet he.found
      cases he.noticing with
      | fresh hs => simp [isNotifying, hs] at hquiet
      | rested hs => simp [isNotifying, hs] at hquiet
      | told hs hx => exact hflush ▸ hx

end Ended

end Machine

end SlashCommands
