import SlashCommands.Proofs.AloneRun
import SlashCommands.Proofs.Rejections

/-!
# What handling comes to

What a private handler sends and how it ends is settled by its acts, the transport and the time
limit (`foretell`), except if it wakes up at the very moment its time is up: then it depends on who
has the first turn. So what a delivery comes to is promised once it is settled what becomes of its
event (`Plan.promise`).
-/

namespace SlashCommands

variable {ν : Type}

/-! ## What a handler comes to -/

/-- When a handler that goes on at some time wakes up from its sleeps. -/
def Act.wakes : Nat → List (Act ν) → List Nat
  | _, [] => []
  | time, .sleep ms :: acts =>
    if ms = 0 then wakes time acts else (time + ms) :: wakes (time + ms) acts
  | time, .call _ :: acts => wakes time acts
  | time, .attempt _ :: acts => wakes time acts
  | time, .note _ :: acts => wakes time acts

/-- When a handler wakes up from its sleeps, counted from its start. -/
def Plan.wakes (p : Plan ν) : List Nat :=
  (p.program?.map fun program => Act.wakes 0 program.acts).getD []

/-- No handler wakes up at the very moment its time is up. -/
def Plan.Untied (router : Router) (p : Plan ν) : Prop :=
  ∀ limit, router.timeLimit = some limit → limit ∉ p.wakes

/-- What a handler leaves that would go on at some time, unless it is too late. -/
def unlessLate (limit : Option Nat) (time : Nat) (x : Exchange) (rest : Exchange × Ending) :
    Exchange × Ending :=
  if limit.any (· ≤ time) then (x, .failed (.timeout (limit.getD 0))) else rest

/-- What a handler leaves that goes on at some time and looks at no notes. -/
def foretell (limit : Option Nat) (ending : Ending) :
    Nat → Exchange → List (Act ν) → Exchange × Ending
  | _, x, [] => (x, ending)
  | time, x, .call make :: acts =>
    match x.perform (make []) with
    | (y, none) => foretell limit ending time y acts
    | (y, some cause) => (y, .failed (.error cause))
  | time, x, .attempt make :: acts => foretell limit ending time (x.perform (make [])).1 acts
  | time, x, .sleep ms :: acts =>
    if ms = 0 then foretell limit ending time x acts
    else unlessLate limit (time + ms) x (foretell limit ending (time + ms) x acts)
  | time, x, .note _ :: acts => foretell limit ending time x acts

theorem unlessLate_of_late {limit time : Nat} (h : limit ≤ time) (x : Exchange)
    (rest : Exchange × Ending) :
    unlessLate (some limit) time x rest = (x, .failed (.timeout limit)) := by
  simp [unlessLate, h]

theorem unlessLate_of_lt {limit : Option Nat} {time : Nat} (h : ∀ l, limit = some l → time < l)
    (x : Exchange) (rest : Exchange × Ending) : unlessLate limit time x rest = rest := by
  rw [unlessLate, if_neg]
  rcases limit with _ | limit
  · simp
  · simpa using h limit rfl

/-- A handler stops where `foretell` goes on, or at the end that it foretells. -/
inductive Burst.Foretold (limit : Option Nat) (ending : Ending) (time : Nat) (x : Exchange)
    (acts : List (Act ν)) : Burst ν → Prop
  | asleep {y : Exchange} {notes : List ν} {ms : Nat} {rest : List (Act ν)}
    (h : foretell limit ending time x acts
      = unlessLate limit (time + ms) y (foretell limit ending (time + ms) y rest))
    (hw : (time + ms) :: Act.wakes (time + ms) rest <:+ Act.wakes time acts) :
    Foretold limit ending time x acts ⟨y, notes, .asleep ms rest⟩
  | ended {y : Exchange} {notes : List ν} {ending' : Ending}
    (h : foretell limit ending time x acts = (y, ending')) :
    Foretold limit ending time x acts ⟨y, notes, .over ending'⟩

section Burst

variable {limit : Option Nat} {ending : Ending} {time : Nat} {x y : Exchange} {a : Act ν}
  {acts : List (Act ν)}

theorem Burst.Foretold.cons {b : Burst ν} (h : b.Foretold limit ending time y acts)
    (he : foretell limit ending time x (a :: acts) = foretell limit ending time y acts)
    (hw : Act.wakes time (a :: acts) = Act.wakes time acts) :
    b.Foretold limit ending time x (a :: acts) := by
  cases h with
  | asleep h hs => exact .asleep (he.trans h) (hw ▸ hs)
  | ended h => exact .ended (he.trans h)

theorem Burst.run_foretold (history : List ν) : ∀ (acts : List (Act ν)) (x : Exchange)
    (notes : List ν), (∀ a ∈ acts, a.Private) →
      (Burst.run history ending x notes acts).Foretold limit ending time x acts
  | [], x, notes, _ => .ended rfl
  | .call make :: acts, x, notes, hp => by
    obtain ⟨hfirst, hrest⟩ := List.forall_mem_cons.1 hp
    rw [run, hfirst]
    rcases hx : x.perform (make []) with ⟨y, _ | cause⟩
    · exact (run_foretold history acts y notes hrest).cons (by rw [foretell, hx]) rfl
    · exact .ended (by rw [foretell, hx])
  | .attempt make :: acts, x, notes, hp => by
    obtain ⟨hfirst, hrest⟩ := List.forall_mem_cons.1 hp
    rw [run, hfirst]
    exact (run_foretold history acts _ notes hrest).cons rfl rfl
  | .sleep ms :: acts, x, notes, hp => by
    rw [run]
    split_ifs with hms
    · exact (run_foretold history acts x notes (List.forall_mem_cons.1 hp).2).cons
        (by rw [foretell, if_pos hms]) (by rw [Act.wakes, if_pos hms])
    · exact .asleep (by rw [foretell, if_neg hms]) (by simp [Act.wakes, hms])
  | .note make :: acts, x, notes, hp =>
    (run_foretold history acts x _ (List.forall_mem_cons.1 hp).2).cons rfl rfl

end Burst

/-! ## What a delivery comes to -/

namespace Delivery

/-- What a delivery that is over comes to when the user knows of a failure. -/
def finish (router : Router) (d : Delivery ν) : Option Outcome × Exchange :=
  (d.outcome, match d.stage with
    | .notifying _ => (d.exchange.perform (.notify ⟨router.messages.failure, true⟩)).1
    | _ => d.exchange)

theorem finish_of_settled {router : Router} {d : Delivery ν} (h : d.stage = .settled) :
    d.finish router = (d.outcome, d.exchange) := by
  rw [finish, h]

/-- There is an outcome, and only a notice may be missing. -/
structure IsOver (d : Delivery ν) : Prop where
  outcome : d.outcome.isSome = true
  stage : d.stage = .settled ∨ ∃ rested, d.stage = .notifying rested

theorem IsOver.started {d : Delivery ν} (h : d.IsOver) : d.stage ≠ .arrived := by
  rcases h.stage with hs | ⟨rested, hs⟩ <;> simp [hs]

/-- A delivery that is over and left the promised result. -/
structure ComesTo (router : Router) (result : Option Outcome × Exchange) (d : Delivery ν) :
    Prop where
  isOver : d.IsOver
  finish : d.finish router = result

end Delivery

namespace Plan

/-- A delivery that is to be handled by a plan. -/
def delivery (p : Plan ν) (x : Exchange) : Delivery ν :=
  ⟨.invocation x.invocation, x, p, false, .arrived, none, none⟩

/-- What a delivery comes to by what its handler leaves. -/
def closing (router : Router) (p : Plan ν) (left : Exchange × Ending) :
    Option Outcome × Exchange :=
  ((p.delivery left.1).conclude left.2).1.finish router

/-- What a delivery comes to that is handled by a plan. -/
def promise (router : Router) (p : Plan ν) (x : Exchange) : Option Outcome × Exchange :=
  match p.program? with
  | some program => p.closing router
    (unlessLate router.timeLimit 0 x (foretell router.timeLimit program.ending 0 x program.acts))
  | none => ((p.delivery x).receive router 0).1.finish router

theorem promise_of_program {p : Plan ν} {program : Program ν}
    (h : p.program? = some program) (router : Router) (x : Exchange) :
    p.promise router x = p.closing router (unlessLate router.timeLimit 0 x
      (foretell router.timeLimit program.ending 0 x program.acts)) := by
  rw [promise, h]

end Plan

namespace Delivery

variable {router : Router} {result : Option Outcome × Exchange} {clock : Nat} {d : Delivery ν}

theorem conclude_comesTo (h : d.plan.program?.isSome = true) (router : Router)
    (ending : Ending) :
    (d.conclude ending).1.ComesTo router (d.plan.closing router (d.exchange, ending)) := by
  rw [Plan.closing, Plan.delivery, conclude, conclude]
  rcases hp : d.plan with _ | _ | _ | ⟨command, path, program⟩ | _ | ⟨command, argument, program⟩
  · simp [hp, Plan.program?] at h
  · simp [hp, Plan.program?] at h
  · simp [hp, Plan.program?] at h
  · cases ending with
    | done suggestions => exact ⟨⟨rfl, .inl rfl⟩, rfl⟩
    | failed failure => exact ⟨⟨rfl, .inr ⟨false, rfl⟩⟩, rfl⟩
  · simp [hp, Plan.program?] at h
  · cases ending with
    | done suggestions => exact ⟨⟨rfl, .inl rfl⟩, rfl⟩
    | failed failure => exact ⟨⟨rfl, .inl rfl⟩, rfl⟩

/-- The timer that watches over a handler from its start. -/
def watch (router : Router) (clock : Nat) : List (Nat × Role) :=
  (router.timeLimit.map fun limit => (clock + limit, .event)).toList

theorem start_of_time (h : router.timeLimit ≠ some 0) (hd : d.deadline = none)
    (program : Program ν) : d.start router clock program
      = ({ d with
          stage := .running program.acts program.ending
          deadline := router.timeLimit.map (clock + ·) },
        { ready := [.handler], timers := watch router clock }) := by
  rw [start, watch]
  split
  · rw [‹router.timeLimit = none›, hd]
    rfl
  · exact absurd ‹router.timeLimit = some 0› h
  · rw [‹router.timeLimit = some _›]
    rfl

theorem start_of_no_time (h : router.timeLimit = some 0) (program : Program ν) :
    d.start router clock program = d.conclude (.failed (.timeout 0)) := by
  rw [start, h]
  rfl

/-- An event without a handler is over at once. -/
theorem receive_comesTo (h : d.plan.program? = none) (router : Router) (clock : Nat) :
    (d.receive router clock).1.ComesTo router (d.plan.promise router d.exchange) := by
  rw [Plan.promise, h, receive, receive, Plan.delivery]
  rcases hp : d.plan with _ | _ | _ | ⟨command, path, program⟩ | _ | ⟨command, argument, program⟩
  · exact ⟨⟨rfl, .inl rfl⟩, rfl⟩
  · exact ⟨⟨rfl, .inl rfl⟩, rfl⟩
  · exact ⟨⟨rfl, .inl rfl⟩, rfl⟩
  · simp [hp, Plan.program?] at h
  · exact ⟨⟨rfl, .inl rfl⟩, rfl⟩
  · simp [hp, Plan.program?] at h

/-- What is over has only a notice to send. -/
theorem ComesTo.poll (h : d.ComesTo router result) (history : List ν) (role : Role) :
    (d.poll router clock history role).1.ComesTo router result := by
  obtain ⟨hover, hfinish⟩ := h
  rcases hover.stage with hs | ⟨rested, hs⟩
  · rw [poll_of_settled hs]
    exact ⟨hover, hfinish⟩
  · by_cases hr : role = .notice
    · subst hr
      rw [Delivery.finish, hs] at hfinish
      rw [Delivery.poll, pollNotice, hs]
      dsimp only
      split_ifs
      · exact ⟨⟨hover.outcome, .inr ⟨true, rfl⟩⟩, hfinish⟩
      · exact ⟨⟨hover.outcome, .inl rfl⟩, hfinish⟩
    · rw [poll_of_notifying hs router clock history hr]
      exact ⟨hover, hfinish⟩

theorem IsOver.poll (h : d.IsOver) (router : Router) (clock : Nat) (history : List ν)
    (role : Role) : (d.poll router clock history role).1.IsOver :=
  have hd : d.ComesTo router (d.finish router) := ⟨h, rfl⟩
  (hd.poll history role).isOver

/-- What is over and has no notice to send is settled. -/
theorem IsOver.settled_of_quiet (h : d.IsOver) (hq : d.isNotifying = false) :
    d.stage = .settled := by
  rcases h.stage with hs | ⟨rested, hs⟩
  · exact hs
  · simp [isNotifying, hs] at hq

end Delivery

end SlashCommands
