import SlashCommands.Proofs.DismissedEvents
import SlashCommands.Proofs.FailureNotice
import SlashCommands.Proofs.PromptHandler

/-!
# Answers to completions

A request for suggestions that something completes is pursued until that is over, and nothing is
written about it till then (`Delivery.Pursues`). The turn that ends it answers the user, with the
first of the suggestions or with none, and settles the delivery (`Delivery.Pursues.poll`). While
somebody waits for the answer, what completes the argument wakes up on time, so it is given up only
if it sleeps too long itself (`Machine.Awaits`). So there is one answer, in whatever way it ends and
whether the transport takes the answer or not, and none where nothing completes the argument
(`Machine.completion_answered`).
-/

namespace SlashCommands

variable {ν : Type}

/-! ## What an answer is -/

namespace Ending

/-- The suggestions that the user is shown. -/
def answer : Ending → List ChoicePayload
  | done values => (values.take 25).map fun value => ⟨value.text, value⟩
  | failed _ => []

/-- What is reported of the request. -/
def verdict : Ending → Outcome
  | done values => .responded (min 25 values.length)
  | failed _ => .failed

/-- The warning that not all suggestions are shown. -/
def truncation (command argument : String) : Ending → List LogEntry
  | done values =>
    if 25 < values.length then [.suggestionsDropped command argument values.length] else []
  | failed _ => []

end Ending

/-- Whether the entry is the warning that suggestions were dropped. -/
def LogEntry.isTruncation : LogEntry → Bool
  | suggestionsDropped .. => true
  | _ => false

/-- Nothing is said to the user. -/
def Act.Silent : Act ν → Prop
  | call _ => False
  | attempt _ => False
  | sleep _ => True
  | note _ => True

theorem Performs.eq_of_silent {x y : Exchange} {acts rest : List (Act ν)}
    (h : Performs (x, acts) (y, rest)) (hs : ∀ a ∈ acts, a.Silent) : y = x := by
  refine h.head_induction_on (motive := fun s _ => (∀ a ∈ s.2, a.Silent) → y = s.1)
    (fun _ => rfl) ?_ hs
  intro s t hst _ ih hs
  cases hst with
  | call history => exact (hs _ List.mem_cons_self).elim
  | attempt history => exact (hs _ List.mem_cons_self).elim
  | sleep => exact ih fun a ha => hs a (List.mem_cons_of_mem _ ha)
  | note => exact ih fun a ha => hs a (List.mem_cons_of_mem _ ha)

namespace Handled

variable {x y : Exchange} {program : Program ν} {late : Nat → List (Act ν) → Prop}
  {ending : Ending}

/-- A program that says nothing leaves the exchange as it was. -/
theorem eq_of_silent (h : Handled x program late y ending)
    (hs : ∀ a ∈ program.acts, a.Silent) : y = x := by
  cases h with
  | finished h => exact Performs.eq_of_silent h hs
  | @refused z make acts history h =>
    -- a call is among what was to be done, and no call is silent
    have hrest : ∀ s : Exchange × List (Act ν), Performs (x, program.acts) s →
        ∀ a ∈ s.2, a.Silent := fun s hp => by
      induction hp with
      | refl => exact hs
      | tail _ hst ih => cases hst <;> exact fun a ha => ih a (List.mem_cons_of_mem _ ha)
    exact (hrest _ h _ List.mem_cons_self).elim
  | late hl h => exact Performs.eq_of_silent h hs

end Handled

/-! ## One delivery -/

/-- A request for suggestions, as the router looks for its answer. -/
structure Inquiry (ν : Type) where
  command : String
  argument : String
  program : Program ν
  exchange : Exchange
  since : Nat

namespace Delivery

variable {router : Router} {clock : Nat} {q : Inquiry ν} {late : Nat → List (Act ν) → Prop}
  {d : Delivery ν}

/-- What completes the argument has left an exchange, and the answer went out on it. -/
structure Answered (y : Exchange) (ending : Ending) (d : Delivery ν) : Prop where
  stage : d.stage = .settled
  outcome : d.outcome = some ending.verdict
  exchange : d.exchange = y.send (.respond ending.answer)

/-- What completes the argument is not over, or nobody has looked since. -/
structure Pursues (router : Router) (q : Inquiry ν) (d : Delivery ν) : Prop where
  plan : d.plan = .complete q.command q.argument q.program
  working : d.Working router q.since q.exchange q.program

/-- A turn goes on and writes nothing, or it answers. -/
inductive Advances (router : Router) (q : Inquiry ν) (late : Nat → List (Act ν) → Prop) :
    Delivery ν × Effects ν → Prop
  | goes {d : Delivery ν} {e : Effects ν} (h : d.Pursues router q) (hl : e.logs = []) :
    Advances router q late (d, e)
  | answers {d : Delivery ν} {e : Effects ν} {y : Exchange} {ending : Ending}
    (hh : Handled q.exchange q.program late y ending) (h : d.Answered y ending)
    (hl : e.logs.filter LogEntry.isTruncation = ending.truncation q.command q.argument) :
    Advances router q late (d, e)

theorem filter_complaint {complain : ErrorChain → LogEntry}
    (h : ∀ cause, (complain cause).isTruncation = false) (fault : Option ErrorChain) :
    (fault.map complain).toList.filter LogEntry.isTruncation = [] := by
  cases fault with
  | none => rfl
  | some cause => simp [h]

/-- The end of what completes an argument is the answer. -/
theorem conclude_answered {command argument : String} {program : Program ν}
    (h : d.plan = .complete command argument program) (ending : Ending) :
    (d.conclude ending).1.Answered d.exchange ending
      ∧ (d.conclude ending).2.logs.filter LogEntry.isTruncation
        = ending.truncation command argument := by
  rw [conclude, h]
  cases ending with
  | done values =>
    refine ⟨⟨rfl, ?_, rfl⟩, ?_⟩
    · simp [concludeCompletion, settle, Ending.verdict, Check.maxChoices]
    · have hunsent : ∀ fault : Option ErrorChain, (fault.map
          (LogEntry.suggestionsUnsent command)).toList.filter LogEntry.isTruncation = [] :=
        filter_complaint fun _ => rfl
      simp only [concludeCompletion, tell, List.filter_append, hunsent, List.append_nil,
        Ending.truncation]
      by_cases hfew : values.length ≤ Check.maxChoices
      · have hnone : ¬ 25 < values.length := Nat.not_lt.2 hfew
        rw [if_pos hfew, if_neg hnone, List.filter_nil]
      · have hsome : 25 < values.length := Nat.not_le.1 hfew
        rw [if_neg hfew, if_pos hsome]
        rfl
  | failed failure =>
    refine ⟨⟨rfl, rfl, rfl⟩, ?_⟩
    exact (List.filter_cons_of_neg (by simp [LogEntry.isTruncation])).trans
      (filter_complaint (fun _ => rfl) _)

namespace Pursues

theorem decided (h : d.Pursues router q) : d.Decided :=
  fun _ he => by simp [h.plan] at he

theorem poll (h : d.Pursues router q) (hc : q.since ≤ clock)
    (hl : ∀ limit rest, d.left? q.program = some rest → router.Late q.since clock limit rest →
      late limit rest) (history : List ν) (role : Role) :
    Advances router q late (d.poll router clock history role) := by
  have hprogram : d.plan.program? = some q.program := by rw [h.plan, Plan.program?]
  have hgoes := h.working.poll hprogram hc hl history role
  generalize d.poll router clock history role = result at hgoes
  cases hgoes with
  | on he hp hlogs => exact .goes ⟨hp.trans h.plan, he⟩ hlogs
  | @concludes ending hh =>
    obtain ⟨ha, hlogs⟩ := conclude_answered h.plan ending
    exact .answers hh ha hlogs

/-- What says nothing leaves the exchange as it was until it is over. -/
theorem exchange_eq (h : d.Pursues router q) (hs : ∀ a ∈ q.program.acts, a.Silent) :
    d.exchange = q.exchange := by
  have hstage := h.working.stage
  rcases hd : d.stage with _ | ⟨acts, ending⟩ | ending | rested | _ <;> rw [hd] at hstage
  · exact hstage
  · exact Performs.eq_of_silent hstage.1 hs
  · exact hstage.eq_of_silent hs
  · exact hstage.elim
  · exact hstage.elim

end Pursues

end Delivery

/-! ## All that may happen -/

namespace Machine

variable {m n : Machine ν} {id : Nat} {q : Inquiry ν} {late late' : Nat → List (Act ν) → Prop}
  {entries : List LogEntry} {d : Delivery ν}

/-- How far a request has come, and what its own tasks have written so far. -/
inductive Inquires (m : Machine ν) (id : Nat) (q : Inquiry ν)
    (late : Nat → List (Act ν) → Prop) : List LogEntry → Prop
  | pursuing {d : Delivery ν} (hd : m.delivery? id = some d) (h : d.Pursues m.router q)
    (hc : q.since ≤ m.clock) : Inquires m id q late []
  | answered {d : Delivery ν} {y : Exchange} {ending : Ending} {entries : List LogEntry}
    (hd : m.deliveries[id]? = some d) (h : d.Answered y ending)
    (hh : Handled q.exchange q.program late y ending)
    (hl : entries.filter LogEntry.isTruncation = ending.truncation q.command q.argument) :
    Inquires m id q late entries

theorem Inquires.mono (h : m.Inquires id q late entries)
    (hl : ∀ limit rest, late limit rest → late' limit rest) : m.Inquires id q late' entries := by
  cases h with
  | pursuing hd h hc => exact .pursuing hd h hc
  | answered hd h hh ht => exact .answered hd h (hh.mono hl) ht

theorem Inquires.frame (h : m.Inquires id q late entries) (hs : m.Spares id n)
    (hc : m.clock ≤ n.clock) : n.Inquires id q late entries := by
  cases h with
  | pursuing hd h hsince =>
    exact .pursuing (delivery?_of_grows hs.router hs.registry hs.delivery hd h.decided)
      (hs.router ▸ h) (Nat.le_trans hsince hc)
  | answered hd h hh hl => exact .answered (hs.delivery.trans hd) h hh hl

/-- A turn of its own writes nothing and concludes nothing, or it answers. -/
inductive Answering (m : Machine ν) (id : Nat) (q : Inquiry ν)
    (late : Nat → List (Act ν) → Prop) (n : Machine ν) : Prop
  | aside (ho : n.outcome? id = m.outcome? id) (hl : n.logs = m.logs)
  | answers {d : Delivery ν} {y : Exchange} {ending : Ending} {entries : List LogEntry}
    (ho : m.outcome? id = none) (hd : n.deliveries[id]? = some d) (h : d.Answered y ending)
    (hh : Handled q.exchange q.program late y ending) (hl : n.logs = m.logs ++ entries)
    (ht : entries.filter LogEntry.isTruncation = ending.truncation q.command q.argument)

/-- Whoever finds the time over may say that the handler is late. -/
def Admits (m : Machine ν) (id : Nat) (q : Inquiry ν) (late : Nat → List (Act ν) → Prop) : Prop :=
  ∀ d limit rest, m.delivery? id = some d → d.left? q.program = some rest →
    m.router.Late q.since m.clock limit rest → late limit rest

theorem outcome?_of_delivery? (h : m.delivery? id = some d) : m.outcome? id = d.outcome := by
  obtain ⟨e, he, rfl⟩ := delivery?_eq_some_iff.1 h
  rw [outcome?, he, Delivery.planned_outcome]
  rfl

theorem Inquires.turn_self (h : m.Inquires id q late entries) (ha : m.Admits id q late)
    (role : Role) : m.Answering id q late (m.turn ⟨id, role⟩)
      ∧ ∃ more, (m.turn ⟨id, role⟩).logs = m.logs ++ more
        ∧ (m.turn ⟨id, role⟩).Inquires id q late (entries ++ more) := by
  cases h with
  | @pursuing d hd h hc =>
    have hd : m.delivery? (⟨id, role⟩ : Task).delivery = some d := hd
    have hself := deliveries_turn_self hd
    have hfound := delivery?_turn_self hd
    have hlogs : (m.turn ⟨id, role⟩).logs
        = m.logs ++ (d.poll m.router m.clock m.notes role).2.logs := by rw [turn_eq_of_some hd]
    have hnone : m.outcome? id = none := (outcome?_of_delivery? hd).trans h.working.outcome
    have hpoll := h.poll hc (fun limit rest => ha d limit rest hd) m.notes role
    generalize d.poll m.router m.clock m.notes role = result at hpoll hself hfound hlogs
    cases hpoll with
    | @goes e effects he hl =>
      refine ⟨.aside ?_ (by rw [hlogs, hl, List.append_nil]), effects.logs, hlogs, ?_⟩
      · rw [hnone, outcome?_of_delivery? hfound]
        exact he.working.outcome
      · rw [hl]
        refine .pursuing hfound ?_ ?_
        · rw [router_turn]
          exact he
        · rw [clock_turn]
          exact hc
    | answers hh h hl =>
      exact ⟨.answers hnone hself h hh hlogs hl, _, hlogs, .answered hself h hh hl⟩
  | @answered d y ending entries hd h hh hl =>
    have hd' : m.delivery? (⟨id, role⟩ : Task).delivery = some d :=
      (delivery?_iff_of_started (by simp [h.stage])).2 hd
    have hpoll : d.poll m.router m.clock m.notes role = (d, {}) :=
      Delivery.poll_of_settled h.stage m.notes role
    have hself : (m.turn ⟨id, role⟩).deliveries[id]? = some d := by
      rw [deliveries_turn_self hd', hpoll]
    have hlogs : (m.turn ⟨id, role⟩).logs = m.logs := by
      rw [turn_eq_of_some hd', hpoll]
      exact List.append_nil _
    refine ⟨.aside (by rw [outcome?, outcome?, hself, hd]) hlogs, [],
      by rw [hlogs, List.append_nil], ?_⟩
    rw [List.append_nil]
    exact .answered hself h hh hl

theorem Inquires.lt_length (h : m.Inquires id q late entries) : id < m.deliveries.length := by
  cases h with
  | pursuing hd => exact lt_of_delivery? hd
  | answered hd => exact (List.getElem?_eq_some_iff.1 hd).1

/-- Whatever happens to the machine, what completes the argument is late only if its time is up. -/
theorem Step.inquires (hs : m.Step n) (hm : m.Sound)
    (h : m.Inquires id q (m.router.Late q.since m.clock) entries) :
    ∃ entries, n.Inquires id q (n.router.Late q.since n.clock) entries := by
  have hle : m.clock ≤ n.clock := hs.clock_le hm
  have h : m.Inquires id q (m.router.Late q.since n.clock) entries :=
    h.mono fun _ _ hl => hl.mono hle
  have ha : m.Admits id q (m.router.Late q.since n.clock) := fun _ _ _ _ _ hl => hl.mono hle
  rw [hs.extends.router]
  generalize m.router.Late q.since n.clock = late at h ha
  rcases hs.spares_or_turn h.lt_length with hspares | ⟨queue, role, hq, rfl⟩
  · exact ⟨entries, h.frame hspares hle⟩
  · have htaken : ({ m with queue } : Machine ν).Inquires id q late entries :=
      h.frame (spares_of_subset hq) (Nat.le_refl _)
    obtain ⟨-, more, -, hin⟩ := htaken.turn_self ha role
    exact ⟨_, hin⟩

theorem Reaches.inquires (hr : m.Reaches n) (hm : m.Sound)
    (h : m.Inquires id q (m.router.Late q.since m.clock) entries) :
    ∃ entries, n.Inquires id q (n.router.Late q.since n.clock) entries := by
  induction hr with
  | refl => exact ⟨entries, h⟩
  | tail hr hs ih =>
    obtain ⟨entries, ih⟩ := ih
    exact hs.inquires (Reaches.sound hr hm) ih

/-! ## While somebody waits -/

/-- Somebody waits for what completes the argument, which wakes up on time. -/
structure Awaits (m : Machine ν) (id : Nat) (q : Inquiry ν) (entries : List LogEntry) : Prop where
  inquires : m.Inquires id q (m.router.TooSlow q.program q.since m.clock) entries
  prompt : ∃ d, m.Prompt id q.since q.program d

theorem Awaits.admits (h : m.Awaits id q entries) :
    m.Admits id q (m.router.TooSlow q.program q.since m.clock) := by
  obtain ⟨d, hd⟩ := h.prompt
  intro e limit rest he hl hlate
  obtain rfl : d = e := Option.some.inj (hd.delivery?.symm.trans he)
  exact hd.tooSlow hl hlate

/-- Nothing is under way. -/
structure Idle (m : Machine ν) : Prop where
  queue : m.queue = []
  timers : ∀ timer ∈ m.timers, timer.task = none

/-- Nothing is under way but the tasks of one delivery. -/
structure OnlyFor (m : Machine ν) (id : Nat) : Prop where
  queue : ∀ job ∈ m.queue, ∃ role, job = .task ⟨id, role⟩
  timers : ∀ timer ∈ m.timers, ∀ task, timer.task = some task → task.delivery = id

theorem OnlyFor.turn (h : m.OnlyFor id) (role : Role) : (m.turn ⟨id, role⟩).OnlyFor id := by
  rcases hd : m.delivery? (⟨id, role⟩ : Task).delivery with _ | d
  · rw [turn_eq_of_none hd]
    exact h
  · rw [turn_eq_of_some hd]
    refine ⟨fun job hj => ?_, fun timer ht task htask => ?_⟩
    · rcases List.mem_append.1 hj with hj | hj
      · exact h.queue job hj
      · obtain ⟨other, -, rfl⟩ := List.mem_map.1 hj
        exact ⟨other, rfl⟩
    · rcases List.mem_append.1 ht with ht | ht
      · exact h.timers timer (List.mem_filter.1 ht).1 task htask
      · obtain ⟨other, -, rfl⟩ := List.mem_map.1 ht
        cases htask
        rfl

theorem OnlyFor.tick (h : m.OnlyFor id) (ht : m.tick? = some n) : n.OnlyFor id := by
  obtain ⟨time, -, -, rfl⟩ := tick?_eq_some ht
  refine ⟨fun job hj => ?_, fun timer hm => h.timers timer (List.mem_filter.1 hm).1⟩
  rcases List.mem_append.1 hj with hj | hj
  · exact h.queue job hj
  · obtain ⟨task, htask, rfl⟩ := List.mem_map.1 hj
    obtain ⟨timer, htimer, hk⟩ := List.mem_filterMap.1 htask
    refine ⟨task.role, ?_⟩
    rw [← h.timers timer (List.mem_filter.1 htimer).1 task hk]

/-- What the tasks of a request have written while somebody waits. If it is alone, that is all that
is written. -/
def Writes (m : Machine ν) (id : Nat) (q : Inquiry ν) (before : List LogEntry) (alone : Prop) :
    Prop :=
  ∃ entries, m.Awaits id q entries ∧ (alone → m.OnlyFor id ∧ m.logs = before ++ entries)

namespace Writes

variable {before : List LogEntry} {alone : Prop}

theorem perform (h : m.Writes id q before alone) {job : Job ν} {queue : List (Job ν)}
    (hq : m.queue = job :: queue) :
    (({ m with queue } : Machine ν).perform job).Writes id q before alone := by
  obtain ⟨entries, hawaits, hwrites⟩ := h
  obtain ⟨d, hd⟩ := hawaits.prompt
  have hprompt := hd.perform hq
  have hlate : (({ m with queue } : Machine ν).perform job).router.TooSlow q.program q.since
      (({ m with queue } : Machine ν).perform job).clock
        = m.router.TooSlow q.program q.since m.clock := by
    rw [(perform_evolves { m with queue } job).router, clock_perform]
  have hsub : queue ⊆ m.queue := hq ▸ List.subset_cons_self job queue
  have htaken : ({ m with queue } : Machine ν).Inquires id q
      (m.router.TooSlow q.program q.since m.clock) entries :=
    hawaits.inquires.frame (spares_of_subset hsub) (Nat.le_refl _)
  by_cases hown : ∃ role, job = .task ⟨id, role⟩
  · obtain ⟨role, rfl⟩ := hown
    obtain ⟨-, more, hmore, hin⟩ := htaken.turn_self hawaits.admits role
    refine ⟨entries ++ more, ⟨hlate ▸ hin, hprompt⟩, fun ha => ?_⟩
    obtain ⟨honly, hl⟩ := hwrites ha
    have htaken : ({ m with queue } : Machine ν).OnlyFor id :=
      ⟨fun job hj => honly.queue job (hsub hj), honly.timers⟩
    exact ⟨htaken.turn role, by rw [Machine.perform, hmore, hl, List.append_assoc]⟩
  · refine ⟨entries, ⟨hlate ▸ ?_, hprompt⟩, fun ha => ?_⟩
    · exact htaken.frame (spares_perform (not_exists.1 hown))
        (Nat.le_of_eq (clock_perform _ job).symm)
    · exact absurd ((hwrites ha).1.queue job (hq ▸ List.mem_cons_self)) hown

theorem tick (h : m.Writes id q before alone) (hm : m.Sound) (hq : m.queue = [])
    (ht : m.tick? = some n) : n.Writes id q before alone := by
  obtain ⟨entries, hawaits, hwrites⟩ := h
  obtain ⟨d, hd⟩ := hawaits.prompt
  have hle : m.clock ≤ n.clock := (Step.tick ht).clock_le hm
  refine ⟨entries, ⟨?_, d, hd.tick hq ht⟩, fun ha => ⟨(hwrites ha).1.tick ht, ?_⟩⟩
  · rw [(tick?_evolves ht).router]
    exact (hawaits.inquires.frame (spares_tick ht) hle).mono fun _ _ hl => hl.mono hle
  · obtain ⟨time, -, -, rfl⟩ := tick?_eq_some ht
    exact (hwrites ha).2

theorem runUntil {goal : Machine ν → Bool} (h : m.Writes id q before alone) (hm : m.Sound) :
    (m.runUntil goal).Writes id q before alone :=
  (runWith_keeps (P := fun n => n.Sound ∧ n.Writes id q before alone)
    (fun _ _ _ hn hq => ⟨hn.1.perform hq, hn.2.perform hq⟩)
    (fun _ _ hn _ hq ht => ⟨hn.1.tick ht, hn.2.tick hn.1 hq ht⟩) _ ⟨hm, h⟩).2

end Writes

/-! ## Requests -/

/-- What is over is answered. -/
theorem Inquires.of_over (h : m.Inquires id q late entries) (hd : m.deliveries[id]? = some d)
    (ho : d.IsOver) : ∃ y ending, Handled q.exchange q.program late y ending
      ∧ d.Answered y ending
      ∧ entries.filter LogEntry.isTruncation = ending.truncation q.command q.argument := by
  cases h with
  | @pursuing e he h hc =>
    obtain rfl : d = e :=
      Option.some.inj (((delivery?_iff_of_started ho.started).2 hd).symm.trans he)
    have hsome := ho.outcome
    rw [h.working.outcome] at hsome
    cases hsome
  | answered he h hh hl =>
    cases hd.symm.trans he
    exact ⟨_, _, hh, h, hl⟩

/-- The request as the router takes it in. -/
def inquiry (m : Machine ν) (request : Request) (transport : Transport) (command : String)
    (program : Program ν) : Inquiry ν :=
  ⟨command, request.focused, program, .new request.invocation transport, m.clock⟩

/-- A machine where an event has yet to have its first turn: it was taken in just now, for somebody
who waits for it, or it was posted some time ago. -/
inductive Comes (m : Machine ν) (event : Event) (transport : Transport) : Machine ν → Nat → Prop
  | taken : Comes m event transport (m.take event transport) m.deliveries.length
  | pending {id : Nat} (h : m.Pending id event transport) : Comes m event transport m id

theorem Comes.router {event : Event} {transport : Transport} {l : Machine ν}
    (h : m.Comes event transport l id) : l.router = m.router := by
  cases h with
  | taken => rfl
  | pending => rfl

theorem Comes.sound {event : Event} {transport : Transport} {l : Machine ν}
    (h : m.Comes event transport l id) (hm : m.Sound) : l.Sound := by
  cases h with
  | taken => exact hm.take event transport
  | pending => exact hm

section Requests

variable {request : Request} {transport : Transport} {command : String} {program : Program ν}

theorem arriving_pursues (m : Machine ν) (awaited : Bool) :
    (Delivery.arriving (.completion request) transport (.complete command request.focused program)
      awaited).Pursues m.router (m.inquiry request transport command program) :=
  ⟨rfl, rfl, fun _ h => by simp [Delivery.arriving, Delivery.posted] at h, rfl⟩

variable (hp : m.router.plan m.registry (.completion request)
  = .complete command request.focused program)

include hp

theorem Comes.inquires {l : Machine ν} (h : m.Comes (.completion request) transport l id) :
    l.Inquires id (m.inquiry request transport command program) late [] := by
  cases h with
  | taken =>
    have hd := m.delivery?_take (.completion request) transport
    rw [hp] at hd
    exact .pursuing hd (arriving_pursues m true) (Nat.le_refl _)
  | pending h =>
    have hd : m.delivery? id = some _ := h
    rw [hp] at hd
    exact .pursuing hd (arriving_pursues m false) (Nat.le_refl _)

theorem Comes.reaches_inquires {l : Machine ν} (h : m.Comes (.completion request) transport l id)
    (hm : m.Sound) (hr : l.Reaches n) :
    ∃ entries, n.Inquires id (m.inquiry request transport command program)
      (m.router.Late m.clock n.clock) entries := by
  have hn := Reaches.inquires hr (h.sound hm) (h.inquires hp)
  rw [(Reaches.extends hr).router, h.router] at hn
  exact hn

/-- At its first turn a program has all its time before it. -/
theorem writes_enter : (m.enter (.completion request) transport).Writes m.deliveries.length
    (m.inquiry request transport command program) m.logs m.Idle := by
  have hprogram : (m.router.plan m.registry (.completion request)).program? = some program := by
    rw [hp, Plan.program?]
  have hadmits : (m.take (.completion request) transport).Admits m.deliveries.length
      (m.inquiry request transport command program)
      (m.router.TooSlow program m.clock m.clock) := by
    intro d limit rest hd hl hlate
    obtain rfl := Option.some.inj ((m.delivery?_take _ _).symm.trans hd)
    cases hl
    obtain rfl : limit = 0 := Nat.le_zero.1 (Nat.le_of_add_le_add_left hlate.2)
    exact ⟨hlate, Nat.le_of_eq (Nat.zero_add _)⟩
  have htaken : (m.take (.completion request) transport).Inquires m.deliveries.length
      (m.inquiry request transport command program)
      (m.router.TooSlow program m.clock m.clock) [] := Comes.taken.inquires hp
  obtain ⟨-, more, hmore, hin⟩ := htaken.turn_self hadmits .event
  refine ⟨more, ⟨?_, prompt_enter hprogram⟩, fun hidle => ⟨?_, hmore⟩⟩
  · rw [enter, router_turn, clock_turn]
    exact hin
  · have htaken : (m.take (.completion request) transport).OnlyFor m.deliveries.length := by
      refine ⟨fun job hj => ?_, fun timer ht task htask => ?_⟩
      · exact absurd hj (by simp [take, hidle.queue])
      · rw [hidle.timers timer ht] at htask
        cases htask
    exact htaken.turn .event

/-- What is written while a request is waited for. -/
theorem dispatchOver_inquires (hm : m.Sound) (transport : Transport) : ∃ entries,
    (m.dispatchOver (.completion request) transport).Inquires m.deliveries.length
      (m.inquiry request transport command program) (m.router.TooSlow program m.clock
        (m.dispatchOver (.completion request) transport).clock) entries
      ∧ (m.Idle → (m.dispatchOver (.completion request) transport).logs = m.logs ++ entries) := by
  let ran := (m.enter (.completion request) transport).runUntil (due m.deliveries.length)
  have hrouter : ran.router = m.router :=
    (runUntil_evolves _ _).router.trans (Step.enter (.completion request) transport).extends.router
  obtain ⟨entries, hawaits, hwrites⟩ : ran.Writes m.deliveries.length
      (m.inquiry request transport command program) m.logs m.Idle :=
    (writes_enter hp).runUntil (hm.enter _ _)
  obtain ⟨-, more, hmore, hin⟩ := hawaits.inquires.turn_self hawaits.admits .event
  have hclock : (m.dispatchOver (.completion request) transport).clock = ran.clock := clock_turn _ _
  rw [hrouter, ← hclock] at hin
  refine ⟨entries ++ more, hin, fun hidle => hmore.trans ?_⟩
  rw [(hwrites hidle).2, List.append_assoc]

end Requests

/-- The request is answered once, when what completes the argument is over, and all its messages but
the answer are that program's own. The truncation is written with the answer and at no other time.
If somebody waits for the answer, the program is given up only if it sleeps till its time is up;
else it is given up only once its time is up. -/
structure Answers (m : Machine ν) (request : Request) (transport : Transport) (q : Inquiry ν) :
    Prop where
  awaited : ∃ y ending entries,
    Handled q.exchange q.program (m.router.TooSlow q.program q.since
        (m.dispatchOver (.completion request) transport).clock) y ending
      ∧ (∀ n, (m.dispatchOver (.completion request) transport).Reaches n →
        ∃ d, n.deliveries[m.deliveries.length]? = some d ∧ d.Answered y ending)
      ∧ entries.filter LogEntry.isTruncation = ending.truncation q.command q.argument
      ∧ (m.Idle → (m.dispatchOver (.completion request) transport).logs = m.logs ++ entries)
  posted : ∀ id, m.Pending id (.completion request) transport → ∀ n, m.Reaches n →
    ∃ y ending, Handled q.exchange q.program (m.router.Late q.since n.settle.clock) y ending
      ∧ ∀ o, n.settle.Reaches o → ∃ d, o.deliveries[id]? = some d ∧ d.Answered y ending
  turns : ∀ l id, m.Comes (.completion request) transport l id → ∀ n, l.Reaches n →
    ∀ role, n.Answering id q (m.router.Late q.since n.clock) (n.turn ⟨id, role⟩)
  once : (∀ a ∈ q.program.acts, a.Silent) →
    ∀ l id, m.Comes (.completion request) transport l id → ∀ n, l.Reaches n →
      ∃ d, n.deliveries[id]? = some d
        ∧ (d.outcome = none ∧ d.exchange.sent = []
          ∨ ∃ ending : Ending, d.outcome = some ending.verdict
            ∧ d.exchange.sent = [.respond ending.answer])

theorem answers_of_plan {request : Request} {command : String} {program : Program ν}
    (hm : m.Reachable) (hp : m.router.plan m.registry (.completion request)
      = .complete command request.focused program) (transport : Transport) :
    m.Answers request transport (m.inquiry request transport command program) where
  awaited := by
    obtain ⟨d, hd, hover⟩ := dispatchOver_over hm (.completion request) transport
    obtain ⟨entries, hin, hlogs⟩ := dispatchOver_inquires hp hm.sound transport
    obtain ⟨y, ending, hh, ha, hl⟩ := hin.of_over hd hover
    exact ⟨y, ending, entries, hh,
      fun n hr => ⟨d, (Reaches.extends hr).settled hd ha.stage, ha⟩, hl, hlogs⟩
  posted id hpending n hr := by
    have hsettled : m.Reaches n.settle := hr.trans (reaches_settle n)
    obtain ⟨d, hd, hover⟩ := hpending.settle_over hm hr
    obtain ⟨entries, hin⟩ := (Comes.pending hpending).reaches_inquires hp hm.sound hsettled
    obtain ⟨y, ending, hh, ha, -⟩ := hin.of_over hd hover
    exact ⟨y, ending, hh, fun o ho => ⟨d, (Reaches.extends ho).settled hd ha.stage, ha⟩⟩
  turns l id hcomes n hr role := by
    obtain ⟨entries, hin⟩ := hcomes.reaches_inquires hp hm.sound hr
    have hrouter : n.router = m.router := (Reaches.extends hr).router.trans hcomes.router
    exact (hin.turn_self (fun _ _ _ _ _ hl => hrouter ▸ hl) role).1
  once hs l id hcomes n hr := by
    obtain ⟨entries, hin⟩ := hcomes.reaches_inquires hp hm.sound hr
    cases hin with
    | @pursuing d hd h hc =>
      obtain ⟨e, he, rfl⟩ := delivery?_eq_some_iff.1 hd
      have hx := h.exchange_eq hs
      have ho := h.working.outcome
      rw [Delivery.planned_exchange] at hx
      rw [Delivery.planned_outcome] at ho
      exact ⟨e, he, .inl ⟨ho, by rw [hx]; rfl⟩⟩
    | @answered d y ending entries hd h hh hl =>
      refine ⟨d, hd, .inr ⟨ending, h.outcome, ?_⟩⟩
      rw [h.exchange, hh.eq_of_silent hs]
      rfl

/-- Whatever the machine is doing, a request for suggestions gets one answer if something completes
the argument, with the first suggestions or with none, and otherwise no answer at all. One whose
command is unknown gets none as long as that is so. -/
theorem completion_answered (hm : m.Reachable) (request : Request) (transport : Transport) :
    (m.registry.get? request.invocation.command = none →
      m.Dismisses (.completion request) transport .ignored fun n =>
        n.registry.get? request.invocation.command = none)
    ∧ ∀ s, m.registry.get? request.invocation.command = some s →
      (s.callbackFor request.invocation.path request.focused = none →
        m.Dismisses (.completion request) transport .noCallback fun _ => True)
      ∧ ∀ callback, s.callbackFor request.invocation.path request.focused = some callback →
        m.Answers request transport (m.inquiry request transport s.name (callback request)) := by
  refine ⟨fun hnone => ?_, fun s hs => ⟨fun hnone => ?_, fun callback hc => ?_⟩⟩
  · have hp : m.router.plan m.registry (.completion request) = .ignore :=
      Router.plan_eq_ignore_iff.2 hnone
    refine dismisses_of_plan hm (by rw [hp, Plan.dismissal?]) (fun n _ hn => ?_) transport
    rw [hp]
    exact Router.plan_eq_ignore_iff.2 hn
  · have hp : m.router.plan m.registry (.completion request) = .noCallback := by
      simp only [Router.plan, Router.planCompletion, hs, hnone]
    exact dismisses_of_known hm (by rw [hp, Plan.dismissal?]) (by simp [hp]) transport
  · refine answers_of_plan hm ?_ transport
    simp only [Router.plan, Router.planCompletion, hs, hc]

/-- A command that suggests one letter more than can be shown. -/
def spell : Command Unit :=
  (Draft.new "spell" "").toSpec [((.root, "letter"), fun _ =>
    ⟨[], .done ("abcdefghijklmnopqrstuvwxyz".toList.map fun c => .string c.toString)⟩)]
    (.single fun _ => .finished)

def spellMachine : Machine Unit :=
  .new (.ofSettings { Settings.default with timeLimit := some 1000 }) (Registry.empty.append spell)

def spellRequest : Request :=
  ⟨.new "spell", "letter", ""⟩

/-- A request of a command that nobody sealed. -/
def countRequest : Request :=
  ⟨.new "count", "letter", ""⟩

/-- The answer is the same if it is refused. -/
theorem spellMachine_completion_answered :
    (∃ program, spellMachine.Answers spellRequest (.without [.respond])
        (spellMachine.inquiry spellRequest (.without [.respond]) "spell" program))
      ∧ ((spellMachine.dispatchOver (.completion spellRequest) (.without [.respond])).deliveries.map
          fun d => (d.outcome, d.exchange.sent))
        = [(some (.responded 25), [.respond ("abcdefghijklmnopqrstuvwxy".toList.map fun c =>
          ⟨c.toString, .string c.toString⟩)])]
      ∧ (spellMachine.dispatchOver (.completion spellRequest) (.without [.respond])).logs
        = [.suggestionsDropped "spell" "letter" 26,
          .suggestionsUnsent "spell" ⟨"respond failed", ["gone"]⟩]
      ∧ spellMachine.Dismisses (.completion countRequest) (.without []) .ignored fun n =>
        n.registry.get? "count" = none := by
  have hs : spellMachine.registry.get? spellRequest.invocation.command = some spell :=
    (Registry.empty_indexed.append rfl).get?_eq_some_iff.2 ⟨List.mem_singleton.2 rfl, rfl⟩
  have hnone : spellMachine.registry.get? countRequest.invocation.command = none := rfl
  obtain ⟨-, hfound⟩ :=
    completion_answered (m := spellMachine) ⟨_, _, .refl⟩ spellRequest (.without [.respond])
  obtain ⟨hunknown, -⟩ :=
    completion_answered (m := spellMachine) ⟨_, _, .refl⟩ countRequest (.without [])
  exact ⟨⟨_, (hfound spell hs).2 _ rfl⟩, rfl, rfl, hunknown hnone⟩

end Machine

end SlashCommands
