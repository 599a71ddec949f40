import SlashCommands.Proofs.TimedCourse

/-!
# Notices on the clock

After a failure the time at which the user is told of it is settled: the notice waits for the delay,
goes out when that is over, and nothing else happens to the delivery (`Share.Notifies`). So what
becomes of a delivery is known from the time at which its handler was over (`Share.After`), and all
that may happen to it keeps this.
-/

namespace SlashCommands

variable {ν : Type}

/-- The exchange after the notice of a failure. -/
def Router.noticed (router : Router) (y : Exchange) : Exchange :=
  y.send (y.state.channel ⟨router.messages.failure, true⟩)

/-- How an invocation ends by the end of its handler. -/
def Ending.outcome : Ending → Outcome
  | done _ => .completed
  | failed _ => .failed

/-- What is left when the user knows of a failure. -/
def Ending.told (router : Router) (y : Exchange) : Ending → Exchange
  | done _ => y
  | failed _ => router.noticed y

namespace Share

variable {router : Router} {s : Share ν}

/-- A turn that sets no timers keeps some of those there are. -/
theorem mem_of_mem_kept {stage : Stage ν} {timers : List (Nat × Role)} {timer : Nat × Role}
    (h : timer ∈ timers.filter (fun timer => stage.heeds timer.2) ++ []) : timer ∈ timers := by
  rw [List.append_nil] at h
  exact (List.mem_filter.1 h).1

/-! ## The notice -/

section Notifies

variable (router) (y : Exchange) (since : Nat)

/-- How far the notice has come of a failure that happened at some time. -/
inductive Notifies (s : Share ν) : Prop
  | fresh (hs : s.delivery.stage = .notifying false) (hx : s.delivery.exchange = y)
    (hc : s.clock = since) (hr : s.ready.count .notice = 1)
    (ht : ∀ timer ∈ s.timers, timer.2 ≠ .notice)
  | rested (hs : s.delivery.stage = .notifying true) (hx : s.delivery.exchange = y)
    (hc : s.clock ≤ since + router.noticeDelay)
    (hw : 0 < s.ready.count .notice ∨ (since + router.noticeDelay, .notice) ∈ s.timers)
    (hr : 0 < s.ready.count .notice → s.clock = since + router.noticeDelay)
    (ht : ∀ timer ∈ s.timers, timer.2 = .notice → timer.1 = since + router.noticeDelay)
  | told (hs : s.delivery.stage = .settled) (hx : s.delivery.exchange = router.noticed y)
    (hc : since + router.noticeDelay ≤ s.clock)

end Notifies

section

variable {y : Exchange} {since : Nat} {history : List ν} {others : List Role}

theorem Notifies.poll_eq (h : s.Notifies router y since) {role : Role} (hn : role ≠ .notice) :
    s.delivery.poll router s.clock history role = (s.delivery, {}) := by
  cases h with
  | fresh hs => exact Delivery.poll_of_notifying hs router s.clock history hn
  | rested hs => exact Delivery.poll_of_notifying hs router s.clock history hn
  | told hs => exact Delivery.poll_of_settled hs history role

/-- The turns of other tasks leave the notice alone. -/
theorem Notifies.idle (h : s.Notifies router y since) {role : Role} (hn : role ≠ .notice)
    (ho : others.count .notice = s.ready.count .notice) :
    (s.turn router history others role).Notifies router y since := by
  rw [turn_of_poll (h.poll_eq hn)]
  cases h with
  | fresh hs hx hc hr ht =>
    exact .fresh hs hx hc (by simpa [ho] using hr) fun timer hm => ht timer (mem_of_mem_kept hm)
  | rested hs hx hc hw hr ht =>
    refine .rested hs hx hc (hw.imp (fun hw => by simpa [ho] using hw) fun hw => ?_)
      (fun hm => hr (by simpa [ho] using hm)) fun timer hm => ht timer (mem_of_mem_kept hm)
    simpa [hs, Stage.heeds] using hw
  | told hs hx hc => exact .told hs hx hc

/-- Once its time has come, the notice goes out. -/
theorem notifies_of_due {rested : Bool} (hs : s.delivery.stage = .notifying rested)
    (hn : rested = true ∨ router.noticeDelay = 0)
    (hc : since + router.noticeDelay ≤ s.clock) :
    (s.turn router history others .notice).Notifies router s.delivery.exchange since := by
  obtain ⟨logs, hpoll⟩ : ∃ logs, s.delivery.poll router s.clock history .notice
      = ({ s.delivery with
          stage := .settled
          exchange := router.noticed s.delivery.exchange }, { logs }) := by
    have hw : (!rested && decide (0 < router.noticeDelay)) = false := by
      rcases hn with rfl | hn <;> simp [*]
    simp only [Delivery.poll, Delivery.pollNotice, hs, hw]
    exact ⟨_, rfl⟩
  rw [turn_of_poll hpoll]
  exact .told rfl rfl hc

/-- The notice's own turn. -/
theorem Notifies.speak (h : s.Notifies router y since) {before after : List Role}
    (hready : s.ready = before ++ .notice :: after) :
    (s.turn router history (before ++ after) .notice).Notifies router y since := by
  have hcount : s.ready.count .notice = (before ++ after).count .notice + 1 := by
    rw [hready, List.count_append, List.count_cons_self, List.count_append]
    omega
  cases h with
  | fresh hs hx hc hr ht =>
    by_cases hdelay : 0 < router.noticeDelay
    · have hpoll : s.delivery.poll router s.clock history .notice
          = ({ s.delivery with stage := .notifying true },
            { timers := [(s.clock + router.noticeDelay, .notice)] }) :=
        Delivery.pollNotice_of_waits hs s.clock hdelay
      have hrest : (before ++ after).count .notice = 0 := by omega
      rw [turn_of_poll hpoll]
      refine .rested rfl hx (hc ▸ Nat.le_add_right _ _) (.inr ?_) (fun hm => ?_)
        fun timer hm hk => ?_
      · simp [hc]
      · rw [List.append_nil, hrest] at hm
        exact absurd hm (Nat.lt_irrefl 0)
      · rcases List.mem_append.1 hm with hm | hm
        · exact absurd hk (ht timer (List.mem_filter.1 hm).1)
        · rw [List.mem_singleton.1 hm, hc]
    · have hzero : router.noticeDelay = 0 := Nat.eq_zero_of_not_pos hdelay
      rw [← hx]
      exact notifies_of_due hs (.inr hzero) (by rw [hzero, hc, Nat.add_zero])
  | rested hs hx hc hw hr ht =>
    rw [← hx]
    exact notifies_of_due hs (.inl rfl) (Nat.le_of_eq (hr (by omega)).symm)
  | told hs hx hc =>
    have hpoll : s.delivery.poll router s.clock history .notice = (s.delivery, {}) :=
      Delivery.poll_of_settled hs history .notice
    rw [turn_of_poll hpoll]
    exact .told hs hx hc

/-- The clock jumps to the time of the notice, or not so far. -/
theorem Notifies.wake (h : s.Notifies router y since) {time : Nat} (hready : s.ready = [])
    (hclock : s.clock ≤ time) (hle : ∀ timer ∈ s.timers, time ≤ timer.1) :
    (s.wake time).Notifies router y since := by
  cases h with
  | fresh hs hx hc hr ht => simp [hready] at hr
  | rested hs hx hc hw hr ht =>
    have hmem : (since + router.noticeDelay, Role.notice) ∈ s.timers := by
      simpa [hready] using hw
    have hnext : time ≤ since + router.noticeDelay := hle _ hmem
    refine .rested hs hx hnext ?_ (fun hm => ?_) fun timer hm => ht timer (List.mem_filter.1 hm).1
    · by_cases he : since + router.noticeDelay = time
      · refine .inl (List.count_pos_iff.2 (List.mem_append_right _ ?_))
        exact List.mem_map.2 ⟨_, List.mem_filter.2 ⟨hmem, by simpa using he⟩, rfl⟩
      · exact .inr (List.mem_filter.2 ⟨hmem, by simpa using he⟩)
    · rcases List.mem_append.1 (List.count_pos_iff.1 hm) with hm | hm
      · simp [hready] at hm
      · obtain ⟨timer, htimer, hrole⟩ := List.mem_map.1 hm
        obtain ⟨hmem, hdue⟩ := List.mem_filter.1 htimer
        have hdue : timer.1 = time := by simpa using hdue
        exact hdue.symm.trans (ht timer hmem hrole)
  | told hs hx hc => exact .told hs hx (Nat.le_trans hc hclock)

/-! ## When the handler is over -/

/-- What becomes of a delivery whose handler was over at some time. -/
inductive After (router : Router) (y : Exchange) (since : Nat) : Ending → Share ν → Prop
  | done {s : Share ν} {suggestions : List Choice} (hs : s.delivery.stage = .settled)
    (ho : s.delivery.outcome = some .completed) (hx : s.delivery.exchange = y) :
    After router y since (.done suggestions) s
  | failed {s : Share ν} {failure : Failure} (ho : s.delivery.outcome = some .failed)
    (h : s.Notifies router y since) : After router y since (.failed failure) s

namespace After

variable {ending : Ending}

theorem poll_eq (h : s.After router y since ending) {role : Role} (hn : role ≠ .notice) :
    s.delivery.poll router s.clock history role = (s.delivery, {}) := by
  cases h with
  | done hs => exact Delivery.poll_of_settled hs history role
  | failed hd h => exact h.poll_eq hn

/-- Whoever waits has the outcome. -/
theorem isDue (h : s.After router y since ending) (clock : Nat) :
    s.delivery.isDue clock = true := by
  cases h with
  | done hs => rw [Delivery.isDue, hs]
  | failed hd h => cases h with
    | fresh hs => rw [Delivery.isDue, hs]
    | rested hs => rw [Delivery.isDue, hs]
    | told hs => rw [Delivery.isDue, hs]

theorem started (h : s.After router y since ending) : s.delivery.stage ≠ .arrived := by
  intro hs
  have hdue := h.isDue 0
  rw [Delivery.isDue, hs] at hdue
  cases hdue

theorem idle (h : s.After router y since ending) {role : Role} (hn : role ≠ .notice)
    (ho : others.count .notice = s.ready.count .notice) :
    (s.turn router history others role).After router y since ending := by
  have hpoll : s.delivery.poll router s.clock history role = (s.delivery, {}) := h.poll_eq hn
  cases h with
  | done hs hd hx =>
    rw [turn_of_poll hpoll]
    exact .done hs hd hx
  | failed hd h =>
    refine .failed ?_ (h.idle hn ho)
    rw [turn_of_poll hpoll]
    exact hd

theorem turn (h : s.After router y since ending) {before after : List Role} {role : Role}
    (hready : s.ready = before ++ role :: after) :
    (s.turn router history (before ++ after) role).After router y since ending := by
  by_cases hn : role = .notice
  · subst hn
    cases h with
    | done hs hd hx =>
      have hpoll : s.delivery.poll router s.clock history .notice = (s.delivery, {}) :=
        Delivery.poll_of_settled hs history .notice
      rw [turn_of_poll hpoll]
      exact .done hs hd hx
    | failed hd h =>
      refine .failed ?_ (h.speak hready)
      simp only [Share.turn, Delivery.poll, Delivery.pollNotice]
      split
      · split_ifs <;> exact hd
      · exact hd
  · refine h.idle hn ?_
    rw [hready, List.count_append, List.count_append, List.count_cons_of_ne hn]

theorem wake (h : s.After router y since ending) {time : Nat} (hready : s.ready = [])
    (hclock : s.clock ≤ time) (hle : ∀ timer ∈ s.timers, time ≤ timer.1) :
    (s.wake time).After router y since ending := by
  cases h with
  | done hs hd hx => exact .done hs hd hx
  | failed hd h => exact .failed hd (h.wake hready hclock hle)

theorem step {t : Share ν} (h : s.After router y since ending) (hs : s.Step router t) :
    t.After router y since ending := by
  cases hs with
  | turn history hready => exact h.turn hready
  | wake hready hclock hle => exact h.wake hready hclock hle

theorem outcome_eq (h : s.After router y since ending) :
    s.delivery.outcome = some ending.outcome := by
  cases h with
  | done hs ho => exact ho
  | failed ho => exact ho

/-- When no notice is kept back, the user knows. -/
theorem settled_of_quiet (h : s.After router y since ending)
    (hq : s.delivery.isNotifying = false) :
    s.delivery.stage = .settled ∧ s.delivery.exchange = ending.told router y := by
  cases h with
  | done hs ho hx => exact ⟨hs, hx⟩
  | failed ho h => cases h with
    | fresh hs => simp [Delivery.isNotifying, hs] at hq
    | rested hs => simp [Delivery.isNotifying, hs] at hq
    | told hs hx => exact ⟨hs, hx⟩

end After

end

end Share

end SlashCommands
