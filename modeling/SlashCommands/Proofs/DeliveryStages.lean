import SlashCommands.Proofs.PendingEvents
import SlashCommands.Proofs.TimedCourse

/-!
# Deliveries at any time

A delivery has arrived, is busy or is over (`Delivery.Regular`), and has an outcome when it is over
and not before. Every turn keeps this, so it is true of all deliveries of a reachable machine
(`Machine.Reachable.regular`). One that nobody has to come back to (`Delivery.Unattended`) is over
when it is owed nothing.
-/

namespace SlashCommands

variable {ν : Type}

/-! ## Deliveries at any time -/

theorem Plan.program?_isSome (p : Plan ν) : p.program?.isSome = p.hasProgram := by
  cases p <;> rfl

namespace Delivery

variable {router : Router} {clock : Nat} {d : Delivery ν}

/-- The handler is at work, or was until now. -/
def IsBusy (d : Delivery ν) : Prop :=
  (∃ acts ending, d.stage = .running acts ending) ∨ ∃ ending, d.stage = .ended ending

/-- What is true of a delivery at any time. -/
inductive Regular (d : Delivery ν) : Prop
  | arrived (hs : d.stage = .arrived) (ho : d.outcome = none)
  | busy (hs : d.IsBusy) (hp : d.plan.program?.isSome = true) (ho : d.outcome = none)
  | concluded (h : d.IsOver)

theorem IsOver.planned (h : d.IsOver) (router : Router) (registry : CommandRegistry ν) :
    (d.planned router registry).IsOver := by
  rwa [planned_of_started h.started]

theorem Regular.planned (h : d.Regular) (router : Router) (registry : CommandRegistry ν) :
    (d.planned router registry).Regular := by
  by_cases hs : d.stage = .arrived
  · cases h with
    | arrived _ ho => exact .arrived (planned_stage.trans hs) (planned_outcome.trans ho)
    | busy hb => rcases hb with ⟨acts, ending, hb⟩ | ⟨ending, hb⟩ <;> simp [hs] at hb
    | concluded h => exact absurd hs h.started
  · rwa [planned_of_started hs]

theorem Regular.over_of_outcome (h : d.Regular) (ho : d.outcome.isSome = true) : d.IsOver := by
  cases h with
  | arrived hs hn => simp [hn] at ho
  | busy hs hp hn => simp [hn] at ho
  | concluded h => exact h

theorem start_regular {program : Program ν} (hp : d.plan.program?.isSome = true)
    (ho : d.outcome = none) : (d.start router clock program).1.Regular := by
  rw [start]
  split
  · exact .busy (.inl ⟨_, _, rfl⟩) hp ho
  · exact .concluded (conclude_comesTo hp router _).isOver
  · exact .busy (.inl ⟨_, _, rfl⟩) hp ho

theorem Regular.poll (h : d.Regular) (history : List ν) (role : Role) :
    (d.poll router clock history role).1.Regular := by
  by_cases hh : d.stage.heeds role = true
  · cases h with
    | arrived hs ho =>
      cases role with
      | event =>
        rw [Delivery.poll, pollEvent, hs]
        dsimp only
        rcases hprogram : d.plan.program? with _ | program
        · exact .concluded (receive_comesTo hprogram router clock).isOver
        · rw [receive_of_program hprogram]
          exact start_regular (by rw [hprogram]; rfl) ho
      | handler => simp [hs, Stage.heeds] at hh
      | notice => simp [hs, Stage.heeds] at hh
    | busy hs hp ho =>
      cases role with
      | event =>
        rcases hs with ⟨acts, ending, hs⟩ | ⟨ending, hs⟩
        · rw [Delivery.poll, pollEvent, hs]
          dsimp only
          split_ifs
          · exact .concluded (conclude_comesTo hp router _).isOver
          · exact .busy (.inl ⟨acts, ending, hs⟩) hp ho
        · rw [Delivery.poll, pollEvent, hs]
          exact .concluded (conclude_comesTo hp router ending).isOver
      | handler =>
        rcases hs with ⟨acts, ending, hs⟩ | ⟨ending, hs⟩
        · rw [Delivery.poll, pollHandler, hs]
          dsimp only
          split
          · exact .busy (.inl ⟨_, _, rfl⟩) hp ho
          · exact .busy (.inr ⟨_, rfl⟩) hp ho
        · simp [hs, Stage.heeds] at hh
      | notice => rcases hs with ⟨acts, ending, hs⟩ | ⟨ending, hs⟩ <;> simp [hs, Stage.heeds] at hh
    | concluded h => exact .concluded (h.poll router clock history role)
  · rw [poll_of_unheeded (Bool.eq_false_iff.2 hh)]
    exact h

/-- Whoever looks when the outcome is due concludes. -/
theorem Regular.over_of_due (h : d.Regular) (hd : d.isDue clock = true) :
    (d.pollEvent router clock).1.IsOver := by
  cases h with
  | arrived hs => simp [isDue, hs] at hd
  | busy hs hp =>
    rcases hs with ⟨acts, ending, hs⟩ | ⟨ending, hs⟩
    · have hlate : d.isLate clock = true := by simpa [isDue, hs] using hd
      rw [pollEvent, hs]
      dsimp only
      rw [if_pos hlate]
      exact (conclude_comesTo hp router _).isOver
    · rw [pollEvent, hs]
      exact (conclude_comesTo hp router ending).isOver
  | concluded h => exact h.poll router clock [] .event

/-- Nobody has to come back to the delivery to conclude it. -/
structure Unattended (d : Delivery ν) : Prop where
  regular : d.Regular
  unawaited : d.awaited = false ∨ d.IsOver

theorem Unattended.poll (h : d.Unattended) (history : List ν) (role : Role) :
    (d.poll router clock history role).1.Unattended := by
  refine ⟨h.regular.poll history role, ?_⟩
  rcases h.unawaited with ha | ho
  · exact .inl ((d.poll_awaited history role).trans ha)
  · exact .inr (ho.poll router clock history role)

theorem Unattended.planned (h : d.Unattended) (router : Router) (registry : CommandRegistry ν) :
    (d.planned router registry).Unattended :=
  ⟨h.regular.planned router registry,
    h.unawaited.imp planned_awaited.trans fun ho => ho.planned router registry⟩

/-- What is owed nothing and needs nobody is over. -/
theorem Unattended.over_of_owes (h : d.Unattended) (ho : d.owes = none) : d.IsOver := by
  rcases h.unawaited with ha | hover
  · cases h.regular with
    | arrived hs => simp [owes, hs, ha] at ho
    | busy hs hp =>
      rw [Plan.program?_isSome] at hp
      rcases hs with ⟨acts, ending, hs⟩ | ⟨ending, hs⟩ <;> simp [owes, hs, ha, hp] at ho
    | concluded h => exact h
  · exact hover

end Delivery

namespace Machine

variable {m n : Machine ν}

theorem Step.regular (hs : m.Step n) (h : ∀ d ∈ m.deliveries, d.Regular) :
    ∀ d ∈ n.deliveries, d.Regular := by
  have hpoll : ∀ (d : Delivery ν) (clock : Nat) (history : List ν) (role : Role), d.Regular →
      (d.poll m.router clock history role).1.Regular :=
    fun _ _ history role hd => hd.poll history role
  have hplanned : ∀ d : Delivery ν, d.Regular → (d.planned m.router m.registry).Regular :=
    fun _ hd => hd.planned _ _
  have hnew : ∀ (event : Event) (transport : Transport) (awaited : Bool),
      ∀ d ∈ m.deliveries ++ [Delivery.posted event transport awaited], d.Regular := by
    intro event transport awaited d hd
    rcases List.mem_append.1 hd with hd | hd
    · exact h d hd
    · rw [List.mem_singleton.1 hd]
      exact .arrived rfl rfl
  cases hs with
  | job hq => exact (perform_evolves _ _).forall_deliveries hpoll hplanned h
  | tick ht => exact (tick?_evolves ht).forall_deliveries hpoll hplanned h
  | post event transport => exact hnew event transport false
  | enter event transport =>
    exact (turn_evolves _ _).forall_deliveries hpoll hplanned (hnew event transport true)
  | look id => exact (turn_evolves m _).forall_deliveries hpoll hplanned h
  | wait ms => exact h
  | addition a => exact h
  | aside => exact h

theorem Reachable.regular (h : m.Reachable) : ∀ d ∈ m.deliveries, d.Regular := by
  obtain ⟨router, registry, hr⟩ := h
  induction hr with
  | refl => exact fun d hd => absurd hd List.not_mem_nil
  | tail _ hs ih => exact hs.regular ih

/-! ## Outcomes -/

/-- Whoever dispatches an event has its outcome. -/
theorem dispatchOver_over (hm : m.Reachable) (event : Event) (transport : Transport) :
    ∃ d, (m.dispatchOver event transport).deliveries[m.deliveries.length]? = some d
      ∧ d.IsOver := by
  let entered := m.enter event transport
  let ran := entered.runUntil (due m.deliveries.length)
  have hran : entered.Reaches ran := reaches_runUntil entered _
  have hreachable : ran.Reachable := hm.reaches (.head (.enter event transport) hran)
  have hfirst := m.deliveries_enter event transport
  obtain ⟨d, hd, -, hstarted⟩ := hran.extends.started hfirst (Delivery.pollEvent_started _)
  have hfound : ran.delivery? (⟨m.deliveries.length, .event⟩ : Task).delivery = some d :=
    (delivery?_iff_of_started hstarted).2 hd
  have hdue : d.isDue ran.clock = true := by
    rw [← due_eq_of_delivery? hfound]
    exact (hm.sound.enter event transport).runUntil_due hfirst (Delivery.pollEvent_started _)
  exact ⟨_, deliveries_turn_self hfound,
    (hreachable.regular d (List.mem_of_getElem? hd)).over_of_due hdue⟩

theorem Pending.unawaited {id : Nat} {event : Event} {transport : Transport}
    (h : m.Pending id event transport) (hr : m.Reaches n) :
    ∃ d, n.deliveries[id]? = some d ∧ d.awaited = false := by
  rcases hr.first_turn h with hp | ⟨o, d, -, -, hd, -, hev⟩
  · obtain ⟨d, hd, hplanned⟩ := delivery?_eq_some_iff.1 hp
    exact ⟨d, hd, Delivery.planned_awaited.symm.trans (congrArg Delivery.awaited hplanned)⟩
  · exact ⟨d, hd, hev.keeps (P := fun d => d.awaited = false)
      (fun d _ history role hd => (d.poll_awaited history role).trans hd) rfl⟩

/-- An event that nobody waits for has its outcome once every event is over. -/
theorem Pending.settle_over {id : Nat} {event : Event} {transport : Transport}
    (h : m.Pending id event transport) (hm : m.Reachable) (hr : m.Reaches n) :
    ∃ d, n.settle.deliveries[id]? = some d ∧ d.IsOver := by
  have hsettled : m.Reaches n.settle := hr.trans (reaches_settle n)
  obtain ⟨d, hd, ha⟩ := h.unawaited hsettled
  have hregular := (hm.reaches hsettled).regular d (List.mem_of_getElem? hd)
  refine ⟨d, hd, ?_⟩
  rcases (hm.reaches hr).sound.settle_owes hd with ho | ho
  · exact hregular.over_of_outcome ho
  · exact Delivery.Unattended.over_of_owes ⟨hregular, .inl ha⟩ ho

/-! ## Registrations under way -/

theorem hasAddition_eq_false_iff : m.hasAddition = false ↔ ∀ a, .addition a ∉ m.queue := by
  rw [hasAddition, List.any_eq_false]
  constructor
  · exact fun h a ha => h _ ha rfl
  · rintro h (task | a) hjob
    · simp
    · exact absurd hjob (h a)

theorem mem_queue_of_perform {a : Addition (Action ν) (Completion ν)} {job : Job ν}
    (h : .addition a ∈ (m.perform job).queue) : .addition a ∈ m.queue := by
  cases job with
  | task task =>
    rcases hd : m.delivery? task.delivery with _ | d
    · rw [perform, turn_eq_of_none hd] at h
      exact h
    · rw [perform, turn_eq_of_some hd] at h
      simpa using h
  | addition b =>
    obtain ⟨calls, logs, he⟩ := actAll_eq b.run m
    rw [perform, he] at h
    exact h

/-- No registration begins by itself. -/
theorem Next.hasAddition (hn : m.Next n) (h : m.hasAddition = false) : n.hasAddition = false := by
  rw [hasAddition_eq_false_iff] at h ⊢
  intro a ha
  cases hn with
  | @job before after job hq =>
    refine h a ?_
    rw [hq]
    exact (List.mem_append.1 (mem_queue_of_perform ha)).elim (List.mem_append_left _)
      fun ha => List.mem_append_right _ (List.mem_cons_of_mem _ ha)
  | tick hq ht =>
    obtain ⟨time, -, -, rfl⟩ := tick?_eq_some ht
    simp [hq] at ha

theorem flushAdditions_hasAddition (m : Machine ν) : m.flushAdditions.hasAddition = false := by
  rcases runUntil_rests m fun m => !m.hasAddition with hg | ⟨hq, -⟩
  · have hg : (!m.flushAdditions.hasAddition) = true := hg
    simpa using hg
  · have hq : m.flushAdditions.queue = [] := hq
    rw [Machine.hasAddition, hq, List.any_nil]

end Machine

end SlashCommands
