import SlashCommands.Proofs.HandlerRun
import SlashCommands.Proofs.Interleaving

/-!
# Handling an event by itself

A handler is private if it uses nothing but its own interaction: what it says depends on no notes.
A turn of its delivery is then the same whatever was noted before
(`Delivery.Private.poll_eq`), so what happens to the delivery among others can happen to it on a
machine that has nothing else (`Share.Steps.alone`). There the clock only lags behind while the
delivery has nothing to do.
-/

namespace SlashCommands

variable {ν : Type}

/-! ## Private handlers -/

/-- What the act says depends on no notes. -/
def Act.Private : Act ν → Prop
  | call make => ∀ history, make history = make []
  | attempt make => ∀ history, make history = make []
  | sleep _ => True
  | note _ => True

/-- What its program does depends on the event alone, not on what others do. -/
def Plan.Private (p : Plan ν) : Prop :=
  ∀ program, p.program? = some program → ∀ a ∈ program.acts, a.Private

theorem Burst.run_of_private {ending : Ending} (history : List ν) :
    ∀ (acts : List (Act ν)) {x : Exchange} {notes : List ν}, (∀ a ∈ acts, a.Private) →
      Burst.run history ending x notes acts = Burst.run [] ending x notes acts
  | [], _, _, _ => rfl
  | .call make :: acts, x, notes, h => by
    obtain ⟨hfirst, hrest⟩ := List.forall_mem_cons.1 h
    have hmake : make (history ++ notes) = make ([] ++ notes) :=
      (hfirst _).trans (hfirst _).symm
    rw [run, run, hmake]
    split
    · exact run_of_private history acts hrest
    · rfl
  | .attempt make :: acts, x, notes, h => by
    obtain ⟨hfirst, hrest⟩ := List.forall_mem_cons.1 h
    have hmake : make (history ++ notes) = make ([] ++ notes) :=
      (hfirst _).trans (hfirst _).symm
    rw [run, run, hmake]
    exact run_of_private history acts hrest
  | .sleep ms :: acts, x, notes, h => by
    rw [run, run]
    split_ifs
    · exact run_of_private history acts (List.forall_mem_cons.1 h).2
    · rfl
  | .note make :: acts, x, notes, h => by
    rw [run, run]
    exact run_of_private history acts (List.forall_mem_cons.1 h).2

/-- What a handler has yet to do is what it had to do from some point on. -/
theorem Burst.rest_isSuffix {history : List ν} {ending : Ending} {ms : Nat} {rest : List (Act ν)} :
    ∀ (acts : List (Act ν)) {x : Exchange} {notes : List ν},
      (Burst.run history ending x notes acts).pause = .asleep ms rest → rest <:+ acts
  | [], x, notes, h => by
    rw [run] at h
    cases h
  | .call make :: acts, x, notes, h => by
    rw [run] at h
    split at h
    · exact (rest_isSuffix acts h).trans (List.suffix_cons _ _)
    · cases h
  | .attempt make :: acts, x, notes, h => by
    rw [run] at h
    exact (rest_isSuffix acts h).trans (List.suffix_cons _ _)
  | .sleep wait :: acts, x, notes, h => by
    rw [run] at h
    split_ifs at h
    · exact (rest_isSuffix acts h).trans (List.suffix_cons _ _)
    · cases h
      exact List.suffix_cons _ _
  | .note make :: acts, x, notes, h => by
    rw [run] at h
    exact (rest_isSuffix acts h).trans (List.suffix_cons _ _)

namespace Delivery

variable {router : Router} {clock : Nat} {d : Delivery ν}

/-- All that a delivery has yet to do is private. -/
structure Private (d : Delivery ν) : Prop where
  plan : d.plan.Private
  acts : ∀ acts ending, d.stage = .running acts ending → ∀ a ∈ acts, a.Private

theorem arriving_private {event : Event} {transport : Transport} {plan : Plan ν} {awaited : Bool}
    (h : plan.Private) : (arriving event transport plan awaited).Private :=
  ⟨h, fun _ _ hs => by cases hs⟩

namespace Private

/-- A turn of a private delivery is the same whatever was noted before. -/
theorem poll_eq (h : d.Private) (history : List ν) (role : Role) :
    d.poll router clock history role = d.poll router clock [] role := by
  cases role with
  | event => rfl
  | handler =>
    rw [poll, poll, pollHandler, pollHandler]
    split
    · rename_i acts ending hs
      rw [Burst.run_of_private history acts (h.acts acts ending hs)]
    · rfl
  | notice => rfl

theorem conclude (h : d.Private) (ending : Ending) : (d.conclude ending).1.Private := by
  rw [Delivery.conclude]
  split
  · cases ending <;> exact ⟨h.plan, fun _ _ hs => by cases hs⟩
  · cases ending <;> exact ⟨h.plan, fun _ _ hs => by cases hs⟩
  · exact h

theorem start (h : d.Private) {program : Program ν} (hp : d.plan.program? = some program) :
    (d.start router clock program).1.Private := by
  have hrun : ∀ deadline, Private { d with
      stage := .running program.acts program.ending, deadline } :=
    fun deadline => ⟨h.plan, fun acts ending hs => by
      cases hs
      exact h.plan program hp⟩
  rw [Delivery.start]
  split
  · exact hrun d.deadline
  · exact h.conclude _
  · exact hrun _

theorem poll (h : d.Private) (history : List ν) (role : Role) :
    (d.poll router clock history role).1.Private := by
  have hover : ∀ e : Delivery ν, e.plan = d.plan → (∀ acts ending, e.stage ≠ .running acts ending) →
      e.Private :=
    fun e hp hs => ⟨hp ▸ h.plan, fun acts ending he => absurd he (hs acts ending)⟩
  cases role with
  | event =>
    rw [Delivery.poll, pollEvent]
    split
    · rw [receive]
      split
      · exact hover _ rfl (by simp [settle])
      · exact hover _ rfl (by simp [settle])
      · exact hover _ rfl (by simp [settle])
      · exact hover _ rfl (by simp [settle])
      · exact h.start (by rw [‹d.plan = _›, Plan.program?])
      · exact h.start (by rw [‹d.plan = _›, Plan.program?])
    · split_ifs
      · exact h.conclude _
      · exact h
    · exact h.conclude _
    · exact h
  | handler =>
    rw [Delivery.poll, pollHandler]
    split
    · rename_i acts ending hs
      dsimp only
      split
      · rename_i ms rest hrest
        refine ⟨h.plan, fun later ending' he a ha => ?_⟩
        cases he
        exact h.acts acts ending hs a ((Burst.rest_isSuffix acts hrest).subset ha)
      · exact hover _ rfl (by simp)
    · exact h
  | notice =>
    rw [Delivery.poll, pollNotice]
    split
    · split_ifs
      · exact hover _ rfl (by simp)
      · exact hover _ rfl (by simp)
    · exact h

end Private

end Delivery

/-! ## A machine for one delivery -/

namespace Share

variable {router : Router} {s t u : Share ν} {l : Machine ν}

/-- A machine has nothing but this share. -/
structure Alone (s : Share ν) (l : Machine ν) : Prop where
  clock : l.clock = s.clock
  length : l.deliveries.length = 1
  found : l.delivery? 0 = some s.delivery
  queue : l.queue = s.ready.map fun role => .task ⟨0, role⟩
  timers : l.timers = s.timers.map fun timer => ⟨timer.1, some ⟨0, timer.2⟩⟩

namespace Alone

theorem turn (h : s.Alone l) {before after : List Role} {role : Role}
    (hr : s.ready = before ++ role :: after) :
    ∃ l', l.Next l' ∧ (s.turn l.router l.notes (before ++ after) role).Alone l' := by
  have hq : l.queue = (before.map fun role => .task ⟨0, role⟩)
      ++ .task ⟨0, role⟩ :: after.map fun role => .task ⟨0, role⟩ := by
    rw [h.queue, hr, List.map_append, List.map_cons]
  let task : Task := ⟨0, role⟩
  let taken : Machine ν := { l with
    queue := (before.map fun role => .task ⟨0, role⟩) ++ after.map fun role => .task ⟨0, role⟩ }
  have hd : taken.delivery? task.delivery = some s.delivery := h.found
  have hlength : (taken.turn task).deliveries.length = 1 :=
    (Machine.turn_evolves taken task).length.trans h.length
  have hfound : (taken.turn task).delivery? 0
      = some (s.turn l.router l.notes (before ++ after) role).delivery := by
    rw [Share.turn, ← h.clock]
    exact Machine.delivery?_turn_self hd
  refine ⟨_, .job hq, (Machine.clock_turn taken task).trans h.clock, hlength, hfound, ?_, ?_⟩
  · rw [Machine.perform, Machine.turn_eq_of_some hd]
    simp [taken, task, h.clock, Share.turn]
  · rw [Machine.perform, Machine.turn_eq_of_some hd]
    simp [taken, task, h.clock, h.timers, Share.turn, List.filter_map, Function.comp_def,
      Machine.keeps]

theorem wake (h : s.Alone l) (hr : s.ready = []) {time : Nat}
    (hdue : ∃ timer ∈ s.timers, timer.1 = time) (ht : ∀ timer ∈ s.timers, time ≤ timer.1) :
    ∃ l', l.Next l' ∧ (s.wake time).Alone l' := by
  have hq : l.queue = [] := by rw [h.queue, hr, List.map_nil]
  obtain ⟨first, hfirst, hfirst'⟩ := hdue
  rcases htick : l.tick? with _ | l'
  · have hnone := Machine.tick?_eq_none_iff.1 htick
    rw [h.timers, List.map_eq_nil_iff] at hnone
    simp [hnone] at hfirst
  · refine ⟨l', .tick hq htick, ?_⟩
    obtain ⟨time', ⟨timer, hmem, htime⟩, hle, rfl⟩ := Machine.tick?_eq_some htick
    rw [h.timers] at hmem hle
    obtain ⟨call, hcall, rfl⟩ := List.mem_map.1 hmem
    have hsame : time' = time :=
      Nat.le_antisymm (hfirst' ▸ hle _ (List.mem_map_of_mem hfirst)) (htime ▸ ht call hcall)
    subst hsame
    refine ⟨rfl, h.length, h.found, ?_, ?_⟩
    · simp [hq, hr, h.timers, Share.wake, List.filter_map, Function.comp_def]
    · simp [h.timers, Share.wake, List.filter_map, Function.comp_def]

end Alone

/-- The clock of the one may be behind while nothing is ready, and all else is the same. -/
structure Lags (s t : Share ν) : Prop where
  delivery : s.delivery = t.delivery
  ready : s.ready = t.ready
  timers : s.timers = t.timers
  clock : s.clock ≤ t.clock
  awake : t.ready ≠ [] → s.clock = t.clock

theorem Lags.refl (s : Share ν) : s.Lags s :=
  ⟨rfl, rfl, rfl, Nat.le_refl _, fun _ => rfl⟩

theorem Lags.eq_of_awake (h : s.Lags t) (hr : t.ready ≠ []) : s = t := by
  obtain ⟨clock, delivery, ready, timers⟩ := s
  obtain ⟨hd, hready, ht, -, hc⟩ := h
  cases hd
  cases hready
  cases ht
  cases hc hr
  rfl

/-- What is woken by now is the same, however far the clock was behind. -/
theorem Lags.wake_eq (h : s.Lags t) (time : Nat) : s.wake time = t.wake time := by
  rw [wake, wake, h.delivery, h.ready, h.timers]

theorem turn_eq_of_private (h : s.delivery.Private) (history history' : List ν)
    (others : List Role) (role : Role) :
    s.turn router history others role = s.turn router history' others role := by
  rw [turn, turn, h.poll_eq history, h.poll_eq history']

theorem Step.delivery_private (h : s.Step router t) (hs : s.delivery.Private) :
    t.delivery.Private := by
  cases h with
  | turn history => exact hs.poll history _
  | wake => exact hs

/-- A step among others is one by itself, or only lets the time pass. -/
theorem Step.alone (h : t.Step l.router u) (hp : t.delivery.Private) (hl : s.Lags t)
    (ha : s.Alone l) :
    ∃ (v : Share ν) (l' : Machine ν), l.Interleaves l' ∧ v.Alone l' ∧ v.Lags u := by
  cases h with
  | @turn history before after role hr =>
    obtain rfl := hl.eq_of_awake (by simp [hr])
    obtain ⟨l', hn, hl'⟩ := ha.turn hr
    rw [turn_eq_of_private hp l.notes history] at hl'
    exact ⟨_, l', .single hn, hl', .refl _⟩
  | @wake time hr hc ht =>
    by_cases hdue : ∃ timer ∈ t.timers, timer.1 = time
    · obtain ⟨l', hn, hl'⟩ := ha.wake (hl.ready.trans hr) (hl.timers ▸ hdue) (hl.timers ▸ ht)
      rw [hl.wake_eq] at hl'
      exact ⟨_, l', .single hn, hl', .refl _⟩
    · -- the clock jumps for others only
      have hsame : t.wake time = { t with clock := time } :=
        wake_of_not_due fun timer hmem he => hdue ⟨timer, hmem, he⟩
      rw [hsame]
      exact ⟨s, l, .refl, ha, hl.delivery, hl.ready, hl.timers, Nat.le_trans hl.clock hc,
        fun hn => absurd hr hn⟩

/-- What happens to a private delivery among others, can happen to it by itself. -/
theorem Steps.alone (h : s.Steps l.router t) (hp : s.delivery.Private) (ha : s.Alone l) :
    t.delivery.Private
      ∧ ∃ (v : Share ν) (l' : Machine ν), l.Interleaves l' ∧ v.Alone l' ∧ v.Lags t := by
  induction h with
  | refl => exact ⟨hp, s, l, .refl, ha, .refl s⟩
  | tail _ hstep ih =>
    obtain ⟨ht, v, l', hl', hv, hlags⟩ := ih
    rw [← hl'.evolves.router] at hstep
    obtain ⟨w, l'', hl'', hw, hlags'⟩ := hstep.alone ht hlags hv
    exact ⟨hstep.delivery_private ht, w, l'', hl'.trans hl'', hw, hlags'⟩

end Share

/-! ## Events by themselves -/

namespace Machine

variable {event : Event} {transport : Transport}

/-- A machine that nothing has come to by some time. -/
def vacant (router : Router) (registry : CommandRegistry ν) (clock : Nat) : Machine ν :=
  { Machine.new router registry with clock }

/-- How an event is handled among others, it can be handled by itself. -/
theorem exists_alone {router : Router} {registry : CommandRegistry ν} {clock : Nat} {t : Share ν}
    (hp : (router.plan registry event).Private)
    (h : (Share.arrived clock event transport (router.plan registry event)).Steps router t)
    (hs : t.delivery.stage ≠ .arrived) :
    ∃ l, ((vacant router registry clock).postOver event transport).Interleaves l
      ∧ l.deliveries = [t.delivery] := by
  have ha : (Share.arrived clock event transport (router.plan registry event)).Alone
      ((vacant router registry clock).postOver event transport) :=
    ⟨rfl, rfl, rfl, rfl, rfl⟩
  obtain ⟨-, v, l, hl, hv, hlags⟩ := Share.Steps.alone h (Delivery.arriving_private hp) ha
  have hfound : l.deliveries[0]? = some t.delivery :=
    (delivery?_iff_of_started hs).1 (hlags.delivery ▸ hv.found)
  obtain ⟨d, hd⟩ := List.length_eq_one_iff.1 hv.length
  rw [hd] at hfound
  cases hfound
  exact ⟨l, hl, hd⟩

end Machine

end SlashCommands
