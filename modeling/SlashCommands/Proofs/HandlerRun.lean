import Mathlib.Algebra.Order.Ring.Nat
import Mathlib.Logic.Relation
import SlashCommands.Proofs.ReplyJoin
import SlashCommands.Proofs.Turns

/-!
# Runs of handlers

What a handler does, act by act (`Act.Step`), and how the handling ends (`Handled`): the handler
finished, a call of it was refused, or it was late. It is late only if its time is up: by the clock
(`Router.Late`), and if it wakes up on time, by what it slept itself (`Router.TooSlow`). A delivery
goes that way and no other, whatever turns it gets (`Delivery.Working.poll`), and once it is over
the router adds nothing but one notice of a failure, by the message that fits what went through.
-/

namespace SlashCommands

variable {ν : Type}

/-! ## What went through -/

instance : DecidablePred Message.IsAnswer := fun m =>
  inferInstanceAs (Decidable (m.verb = .reply ∨ m.verb = .edit))

instance : DecidablePred Message.IsDeferral := fun m =>
  inferInstanceAs (Decidable (m.verb = .defer))

/-- Which of these messages, sent after others, a transport takes. -/
def Transport.taken (t : Transport) (before : List Message) : List Message → List Message
  | [] => []
  | m :: rest => (if t before m then [m] else []) ++ taken t (before ++ [m]) rest

theorem Transport.taken_concat (t : Transport) (m : Message) : ∀ before rest : List Message,
    t.taken before (rest ++ [m])
      = t.taken before rest ++ if t (before ++ rest) m then [m] else []
  | before, [] => by simp [taken]
  | before, first :: rest => by
    simp [taken, taken_concat t m (before ++ [first]) rest]

namespace Exchange

variable {x y : Exchange} {m : Message}

/-- The messages that went through. -/
def went (x : Exchange) : List Message :=
  x.transport.taken [] x.sent

theorem went_send (x : Exchange) (m : Message) :
    (x.send m).went = x.went ++ if x.accepts m then [m] else [] := by
  rw [went, send, Transport.taken_concat]
  rfl

/-- The state tells what went through. -/
def Faithful (x : Exchange) : Prop :=
  ReplyState.Joins x.went x.state

theorem faithful_new (i : Invocation) (t : Transport) : (new i t).Faithful :=
  .nil

theorem Faithful.send (h : x.Faithful) (m : Message) : (x.send m).Faithful := by
  rw [Faithful, went_send]
  by_cases ha : x.accepts m
  · simpa [Exchange.send, ha] using h.concat m
  · have hx : ReplyState.Joins x.went x.state := h
    simpa [Exchange.send, ha] using hx

/-- The message that tells the user of a failure: a follow-up if some answer went through, an edit
if none did but one was put off, or else a reply. -/
def notice (x : Exchange) (reply : Reply) : Message :=
  if ∃ m ∈ x.went, m.IsAnswer then .followUp reply
  else if ∃ m ∈ x.went, m.IsDeferral then .edit reply
  else .reply reply

theorem Faithful.channel_eq (h : x.Faithful) (reply : Reply) :
    x.state.channel reply = x.notice reply := by
  rw [notice]
  rcases hs : x.state
  · have := h.pending.1 hs
    rw [if_neg this.1, if_neg this.2]
    rfl
  · have := h.deferred.1 hs
    rw [if_neg this.1, if_pos this.2]
    rfl
  · rw [if_pos (h.replied.1 hs)]
    rfl

end Exchange

/-! ## Acts -/

/-- A handler does its next act; what it says may depend on notes that were made before. -/
inductive Act.Step : Exchange × List (Act ν) → Exchange × List (Act ν) → Prop
  | call {x : Exchange} {make : List ν → ReplyCall} {acts : List (Act ν)} (history : List ν)
    (h : x.accepts ((make history).message x.state) = true) :
    Step (x, .call make :: acts) (x.send ((make history).message x.state), acts)
  | attempt {x : Exchange} {make : List ν → ReplyCall} {acts : List (Act ν)} (history : List ν) :
    Step (x, .attempt make :: acts) (x.send ((make history).message x.state), acts)
  | sleep {x : Exchange} {ms : Nat} {acts : List (Act ν)} : Step (x, .sleep ms :: acts) (x, acts)
  | note {x : Exchange} {make : ReplyState → ν} {acts : List (Act ν)} :
    Step (x, .note make :: acts) (x, acts)

/-- What acts may do, one after the other, whatever was noted before. -/
abbrev Performs : Exchange × List (Act ν) → Exchange × List (Act ν) → Prop :=
  Relation.ReflTransGen Act.Step

theorem Performs.faithful {x y : Exchange} {acts rest : List (Act ν)}
    (h : Performs (x, acts) (y, rest)) (hx : x.Faithful) : y.Faithful := by
  refine h.head_induction_on (motive := fun s _ => s.1.Faithful → y.Faithful) id ?_ hx
  intro s t hst _ ih hs
  cases hst with
  | call history => exact ih (hs.send _)
  | attempt history => exact ih (hs.send _)
  | sleep => exact ih hs
  | note => exact ih hs

theorem Performs.isSuffix {x y : Exchange} {acts rest : List (Act ν)}
    (h : Performs (x, acts) (y, rest)) : rest <:+ acts := by
  refine h.head_induction_on (motive := fun s _ => rest <:+ s.2) (List.suffix_refl _) ?_
  intro s t hst _ ih
  cases hst with
  | call history => exact ih.trans (List.suffix_cons _ _)
  | attempt history => exact ih.trans (List.suffix_cons _ _)
  | sleep => exact ih.trans (List.suffix_cons _ _)
  | note => exact ih.trans (List.suffix_cons _ _)

/-! ## How handlers end -/

/-- How long an act takes. -/
def Act.span : Act ν → Nat
  | sleep ms => ms
  | _ => 0

/-- How long acts take if nobody keeps the handler from waking up. -/
def Act.duration (acts : List (Act ν)) : Nat :=
  (acts.map span).sum

@[simp]
theorem Act.duration_cons (a : Act ν) (acts : List (Act ν)) :
    Act.duration (a :: acts) = a.span + Act.duration acts := by
  simp [duration]

/-- How the handling of an invocation ends. Of each time limit it has to be known whether it can be
over when certain acts are left to do. -/
inductive Handled (x : Exchange) (program : Program ν) (late : Nat → List (Act ν) → Prop) :
    Exchange → Ending → Prop
  | finished {y : Exchange} (h : Performs (x, program.acts) (y, [])) :
    Handled x program late y program.ending
  | refused {y : Exchange} {make : List ν → ReplyCall} {acts : List (Act ν)} (history : List ν)
    (h : Performs (x, program.acts) (y, .call make :: acts))
    (hr : y.accepts ((make history).message y.state) = false) :
    Handled x program late (y.send ((make history).message y.state))
      (.failed (.error (Exchange.refusal ((make history).message y.state))))
  | late {y : Exchange} {acts : List (Act ν)} {limit : Nat} (hl : late limit acts)
    (h : Performs (x, program.acts) (y, acts)) :
    Handled x program late y (.failed (.timeout limit))

/-- The time limit is over, counted from some time. -/
def Router.Late (router : Router) (since clock limit : Nat) (_ : List (Act ν)) : Prop :=
  router.timeLimit = some limit ∧ since + limit ≤ clock

/-- The time limit is over, and the program has slept that long before what is left of it. -/
def Router.TooSlow (router : Router) (program : Program ν) (since clock limit : Nat)
    (rest : List (Act ν)) : Prop :=
  router.Late since clock limit rest
    ∧ limit + Act.duration rest ≤ Act.duration program.acts

theorem Router.Late.mono {router : Router} {since clock clock' limit : Nat} {rest : List (Act ν)}
    (h : router.Late since clock limit rest) (hc : clock ≤ clock') :
    router.Late since clock' limit rest :=
  ⟨h.1, Nat.le_trans h.2 hc⟩

theorem Router.TooSlow.mono {router : Router} {program : Program ν} {since clock clock' limit : Nat}
    {rest : List (Act ν)} (h : router.TooSlow program since clock limit rest)
    (hc : clock ≤ clock') : router.TooSlow program since clock' limit rest :=
  ⟨h.1.mono hc, h.2⟩

namespace Handled

variable {x y : Exchange} {program : Program ν} {late late' : Nat → List (Act ν) → Prop}
  {ending : Ending}

theorem faithful (h : Handled x program late y ending) (hx : x.Faithful) : y.Faithful := by
  cases h with
  | finished h => exact Performs.faithful h hx
  | refused history h => exact (Performs.faithful h hx).send _
  | late hl h => exact Performs.faithful h hx

theorem mono (h : Handled x program late y ending)
    (hl : ∀ limit rest, late limit rest → late' limit rest) :
    Handled x program late' y ending := by
  cases h with
  | finished h => exact .finished h
  | refused history h hr => exact .refused history h hr
  | late hlate h => exact .late (hl _ _ hlate) h

/-- A handler that sleeps for less than its time is not given up. -/
theorem in_time {router : Router} {since clock : Nat}
    (h : Handled x program (router.TooSlow program since clock) y ending)
    (hd : ∀ limit, router.timeLimit = some limit → Act.duration program.acts < limit) :
    Handled x program (fun _ _ => False) y ending :=
  h.mono fun limit _ hlate => by
    have hslept := hlate.2
    have := hd limit hlate.1.1
    omega

end Handled

/-- What a handler does in one turn; it is not late by its own turn. -/
inductive Burst.Sound (x : Exchange) (program : Program ν) : Burst ν → Prop
  | asleep {y : Exchange} {notes : List ν} {ms : Nat} {rest : List (Act ν)}
    (h : Performs (x, program.acts) (y, rest)) : Sound x program ⟨y, notes, .asleep ms rest⟩
  | ended {y : Exchange} {notes : List ν} {ending : Ending}
    (h : Handled x program (fun _ _ => False) y ending) :
    Sound x program ⟨y, notes, .over ending⟩

theorem Burst.run_sound {x : Exchange} {program : Program ν} (history : List ν) :
    ∀ (acts : List (Act ν)) {y : Exchange} (notes : List ν),
      Performs (x, program.acts) (y, acts) →
        (Burst.run history program.ending y notes acts).Sound x program
  | [], _, _, h => .ended (.finished h)
  | .call make :: acts, y, notes, h => by
    rw [run]
    by_cases ha : y.accepts ((make (history ++ notes)).message y.state)
    · rw [Exchange.perform, if_pos ha]
      exact run_sound history acts notes (h.tail (.call _ ha))
    · rw [Exchange.perform, if_neg ha]
      exact .ended (.refused _ h (by simpa using ha))
  | .attempt make :: acts, y, notes, h => run_sound history acts notes (h.tail (.attempt _))
  | .sleep ms :: acts, y, notes, h => by
    rw [run]
    split_ifs
    · exact run_sound history acts notes (h.tail .sleep)
    · exact .asleep (h.tail .sleep)
  | .note make :: acts, y, notes, h => run_sound history acts _ (h.tail .note)

/-- The program that is to be run, if there is one. -/
def Plan.program? : Plan ν → Option (Program ν)
  | handle _ _ program => some program
  | complete _ _ program => some program
  | _ => none

namespace Delivery

variable {router : Router} {since clock : Nat} {x y : Exchange} {program : Program ν}
  {late : Nat → List (Act ν) → Prop} {d e : Delivery ν}

theorem receive_of_program (h : d.plan.program? = some program) :
    d.receive router clock = d.start router clock program := by
  rw [receive]
  rcases hp : d.plan with _ | _ | _ | ⟨command, path, program⟩ | _ | ⟨command, argument, program⟩
    <;> rw [hp] at h <;> cases h
  · rfl
  · rfl

/-! ## While the handler is not over -/

/-- A handler that is started no earlier than some time has not come to its end, or nobody has
looked since. -/
structure Working (router : Router) (since : Nat) (x : Exchange) (program : Program ν)
    (d : Delivery ν) : Prop where
  outcome : d.outcome = none
  deadline : ∀ deadline, d.deadline = some deadline →
    ∃ limit, router.timeLimit = some limit ∧ since + limit ≤ deadline
  stage : match d.stage with
    | .arrived => d.exchange = x
    | .running acts ending => Performs (x, program.acts) (d.exchange, acts)
      ∧ ending = program.ending
    | .ended ending => Handled x program (fun _ _ => False) d.exchange ending
    | _ => False

/-- What the handler has yet to do, if it is not over. -/
def left? (program : Program ν) (d : Delivery ν) : Option (List (Act ν)) :=
  match d.stage with
  | .arrived => some program.acts
  | .running acts _ => some acts
  | _ => none

/-- A turn goes on with the handler, with nothing written and no notice to come, or it concludes. -/
inductive Goes (router : Router) (since : Nat) (x : Exchange) (program : Program ν)
    (late : Nat → List (Act ν) → Prop) (d : Delivery ν) : Delivery ν × Effects ν → Prop
  | on {e : Delivery ν} {effects : Effects ν} (h : e.Working router since x program)
    (hp : e.plan = d.plan) (hl : effects.logs = []) (hr : .notice ∉ effects.ready)
    (ht : ∀ timer ∈ effects.timers, timer.2 ≠ .notice) : Goes router since x program late d
      (e, effects)
  | concludes {ending : Ending} (h : Handled x program late d.exchange ending) :
    Goes router since x program late d (d.conclude ending)

namespace Working

theorem goes (h : d.Working router since x program) :
    Goes router since x program late d (d, {}) :=
  .on h rfl rfl (by simp) (by simp)

/-- Who looks when the outcome is due, concludes. -/
theorem pollEvent_of_due (h : d.Working router since x program)
    (hl : ∀ limit rest, d.left? program = some rest → router.Late since clock limit rest →
      late limit rest) (hd : d.isDue clock = true) :
    ∃ ending, Handled x program late d.exchange ending
      ∧ d.pollEvent router clock = d.conclude ending := by
  have hs := h.stage
  rw [Delivery.pollEvent]
  rcases he : d.stage with _ | ⟨acts, ending⟩ | ending | rested | _ <;> rw [he] at hs
  · simp [isDue, he] at hd
  · have hlate : d.isLate clock = true := by simpa [isDue, he] using hd
    obtain ⟨deadline, hdeadline, hle⟩ : ∃ deadline, d.deadline = some deadline
        ∧ deadline ≤ clock := by
      simpa [isLate, Option.any_eq_true] using hlate
    obtain ⟨limit, hlimit, hsince⟩ := h.deadline deadline hdeadline
    have hleft : d.left? program = some acts := by rw [left?, he]
    dsimp only
    rw [if_pos hlate, hlimit]
    exact ⟨_, .late (hl limit acts hleft ⟨hlimit, Nat.le_trans hsince hle⟩) hs.1, rfl⟩
  · exact ⟨ending, hs.mono fun _ _ h => h.elim, rfl⟩
  · exact hs.elim
  · exact hs.elim

theorem start (h : d.Working router since x program) (hs : d.stage = .arrived)
    (hc : since ≤ clock)
    (hl : ∀ limit rest, d.left? program = some rest → router.Late since clock limit rest →
      late limit rest) :
    Goes router since x program late d (d.start router clock program) := by
  have hx : d.exchange = x := by simpa [hs] using h.stage
  have hrun : Performs (x, program.acts) (d.exchange, program.acts) := hx ▸ .refl
  rw [Delivery.start]
  split
  · exact .on ⟨h.outcome, h.deadline, hrun, rfl⟩ rfl rfl (by simp) (by simp)
  · have hleft : d.left? program = some program.acts := by rw [left?, hs]
    exact .concludes (.late (hl 0 program.acts hleft ⟨‹_›, hc⟩) hrun)
  · rename_i limit _ hlimit
    refine .on ⟨h.outcome, fun deadline hd => ⟨limit, hlimit, ?_⟩, hrun, rfl⟩ rfl rfl (by simp)
      (by simp)
    cases hd
    exact Nat.add_le_add_right hc limit

theorem pollEvent (h : d.Working router since x program) (hp : d.plan.program? = some program)
    (hc : since ≤ clock)
    (hl : ∀ limit rest, d.left? program = some rest → router.Late since clock limit rest →
      late limit rest) :
    Goes router since x program late d (d.pollEvent router clock) := by
  by_cases hd : d.isDue clock = true
  · obtain ⟨ending, hh, he⟩ := h.pollEvent_of_due hl hd
    rw [he]
    exact .concludes hh
  · have hs := h.stage
    rw [Delivery.pollEvent]
    rcases he : d.stage with _ | ⟨acts, ending⟩ | ending | rested | _ <;> rw [he] at hs
    · dsimp only
      rw [receive_of_program hp]
      exact h.start he hc hl
    · have hlate : ¬ d.isLate clock = true := by simpa [isDue, he] using hd
      dsimp only
      rw [if_neg hlate]
      exact h.goes
    · simp [isDue, he] at hd
    · exact hs.elim
    · exact hs.elim

theorem pollHandler (h : d.Working router since x program) (history : List ν) :
    Goes router since x program late d (d.pollHandler clock history) := by
  have hs := h.stage
  rw [Delivery.pollHandler]
  rcases hd : d.stage with _ | ⟨acts, ending⟩ | ending | rested | _ <;> rw [hd] at hs
  · exact h.goes
  · obtain ⟨hrun, rfl⟩ := hs
    have hb : (Burst.run history program.ending d.exchange [] acts).Sound x program :=
      Burst.run_sound history acts [] hrun
    dsimp only
    generalize Burst.run history program.ending d.exchange [] acts = burst at hb
    cases hb with
    | asleep hb => exact .on ⟨h.outcome, h.deadline, hb, rfl⟩ rfl rfl (by simp) (by simp)
    | ended hb =>
      refine .on ⟨h.outcome, h.deadline, hb⟩ rfl rfl ?_ (by simp)
      dsimp only
      split_ifs <;> simp
  · exact h.goes
  · exact hs.elim
  · exact hs.elim

theorem unheeded_notice (h : d.Working router since x program) :
    d.stage.heeds .notice = false := by
  have hs := h.stage
  rcases hd : d.stage with _ | ⟨acts, ending⟩ | ending | rested | _ <;> rw [hd] at hs
  · rfl
  · rfl
  · rfl
  · exact hs.elim
  · exact hs.elim

theorem poll (h : d.Working router since x program) (hp : d.plan.program? = some program)
    (hc : since ≤ clock)
    (hl : ∀ limit rest, d.left? program = some rest → router.Late since clock limit rest →
      late limit rest) (history : List ν) (role : Role) :
    Goes router since x program late d (d.poll router clock history role) := by
  cases role with
  | event => exact h.pollEvent hp hc hl
  | handler => exact h.pollHandler history
  | notice =>
    rw [poll_of_unheeded h.unheeded_notice]
    exact h.goes

end Working

/-! ## When the handler is over -/

/-- What the end of a handler leaves: nothing, or a failure and a turn for its notice. -/
inductive Concludes (y : Exchange) : Ending → Delivery ν × Effects ν → Prop
  | done {d : Delivery ν} {suggestions : List Choice} (hs : d.stage = .settled)
    (ho : d.outcome = some .completed) (hx : d.exchange = y) :
    Concludes y (.done suggestions) (d, {})
  | failed {d : Delivery ν} {failure : Failure} {logs : List LogEntry}
    (hs : d.stage = .notifying false) (ho : d.outcome = some .failed) (hx : d.exchange = y) :
    Concludes y (.failed failure) (d, { logs, ready := [.notice] })

theorem conclude_concludes {command : String} {path : Path}
    (h : d.plan = .handle command path program) (ending : Ending) :
    Concludes d.exchange ending (d.conclude ending) := by
  rw [conclude, h]
  cases ending with
  | done suggestions => exact .done rfl rfl rfl
  | failed failure => exact .failed rfl rfl rfl

/-- A handler was over with nothing to tell the user of. -/
structure Completed (y : Exchange) (d : Delivery ν) : Prop where
  stage : d.stage = .settled
  outcome : d.outcome = some .completed
  exchange : d.exchange = y

/-- The router's own message after a failure. -/
def told (router : Router) (y : Exchange) : Exchange :=
  y.send (y.notice ⟨router.messages.failure, true⟩)

/-- Nothing but the notice can happen to a delivery that failed. -/
theorem poll_of_notifying {rested : Bool} (hs : d.stage = .notifying rested) (router : Router)
    (clock : Nat) (history : List ν) {role : Role} (hr : role ≠ .notice) :
    d.poll router clock history role = (d, {}) := by
  cases role with
  | event => simp [poll, pollEvent, hs]
  | handler => simp [poll, pollHandler, hs]
  | notice => exact absurd rfl hr

theorem pollNotice_of_waits (hs : d.stage = .notifying false) (clock : Nat)
    (hn : 0 < router.noticeDelay) :
    d.pollNotice router clock = ({ d with stage := .notifying true },
      { timers := [(clock + router.noticeDelay, .notice)] }) := by
  simp [pollNotice, hs, hn]

/-- The notice goes out, and its delivery is over, whether it is refused or not. -/
theorem pollNotice_of_rested {rested : Bool} (hs : d.stage = .notifying rested) (clock : Nat)
    (hn : rested = true ∨ router.noticeDelay = 0) (hf : d.exchange.Faithful) :
    ∃ logs, d.pollNotice router clock
      = ({ d with stage := .settled, exchange := told router d.exchange }, { logs }) := by
  have hw : (!rested && decide (0 < router.noticeDelay)) = false := by
    rcases hn with rfl | hn <;> simp [*]
  simp only [pollNotice, hs, hw, tell, Exchange.perform, ReplyCall.message, hf.channel_eq]
  exact ⟨_, rfl⟩

end Delivery

end SlashCommands
