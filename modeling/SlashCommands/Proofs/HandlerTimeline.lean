import SlashCommands.Proofs.AloneRun

/-!
# Timelines of handlers

What a private handler does that nobody stops is settled by its acts and the transport: what it
sends and when, and when and how it is over (`Program.timeline`). One that has a time limit leaves
what its timeline has up to then (`Timeline.Leaves`). A turn of the handler takes it along its
timeline up to the next sleep or to the end (`Burst.run_follows`).
-/

namespace SlashCommands

variable {ν : Type}

/-- What is sent and when, when it is over, and what is left then. -/
structure Timeline where
  calls : List (Nat × Message)
  finish : Nat
  exchange : Exchange
  ending : Ending

namespace Timeline

/-- The same after some other calls. -/
def after (t : Timeline) (made : List (Nat × Message)) : Timeline :=
  { t with calls := made ++ t.calls }

@[simp]
theorem calls_after (t : Timeline) (made : List (Nat × Message)) :
    (t.after made).calls = made ++ t.calls :=
  rfl

@[simp]
theorem finish_after (t : Timeline) (made : List (Nat × Message)) :
    (t.after made).finish = t.finish :=
  rfl

@[simp]
theorem after_after (t : Timeline) (made more : List (Nat × Message)) :
    (t.after more).after made = t.after (made ++ more) := by
  rw [after, after, after, List.append_assoc]

/-- What a handler does that goes on at some time. A call that is refused is its end. -/
def ofActs (ending : Ending) : Nat → Exchange → List (Act ν) → Timeline
  | time, x, [] => ⟨[], time, x, ending⟩
  | time, x, .call make :: acts =>
    let message := (make []).message x.state
    let rest := if x.accepts message then ofActs ending time (x.send message) acts
      else ⟨[], time, x.send message, .failed (.error (Exchange.refusal message))⟩
    rest.after [(time, message)]
  | time, x, .attempt make :: acts =>
    let message := (make []).message x.state
    (ofActs ending time (x.send message) acts).after [(time, message)]
  | time, x, .sleep ms :: acts => ofActs ending (time + ms) x acts
  | time, x, .note _ :: acts => ofActs ending time x acts

variable {ending : Ending}

theorem le_finish : ∀ (acts : List (Act ν)) (time : Nat) (x : Exchange),
    time ≤ (ofActs ending time x acts).finish
  | [], _, _ => Nat.le_refl _
  | .call make :: acts, time, x => by
    rw [ofActs]
    split_ifs
    · exact le_finish acts time _
    · exact Nat.le_refl _
  | .attempt make :: acts, time, x => le_finish acts time _
  | .sleep ms :: acts, time, x =>
    Nat.le_trans (Nat.le_add_right time ms) (le_finish acts (time + ms) x)
  | .note make :: acts, time, x => le_finish acts time x

theorem le_of_mem_calls : ∀ (acts : List (Act ν)) (time : Nat) (x : Exchange),
    ∀ c ∈ (ofActs ending time x acts).calls, time ≤ c.1
  | [], _, _, c, hc => absurd hc List.not_mem_nil
  | .call make :: acts, time, x, c, hc => by
    rw [ofActs] at hc
    rcases List.mem_cons.1 hc with rfl | hc
    · exact Nat.le_refl _
    · split_ifs at hc
      · exact le_of_mem_calls acts time _ c hc
      · exact absurd hc List.not_mem_nil
  | .attempt make :: acts, time, x, c, hc => by
    rcases List.mem_cons.1 hc with rfl | hc
    · exact Nat.le_refl _
    · exact le_of_mem_calls acts time _ c hc
  | .sleep ms :: acts, time, x, c, hc =>
    Nat.le_trans (Nat.le_add_right time ms) (le_of_mem_calls acts (time + ms) x c hc)
  | .note make :: acts, time, x, c, hc => le_of_mem_calls acts time x c hc

theorem le_finish_of_mem_calls : ∀ (acts : List (Act ν)) (time : Nat) (x : Exchange),
    ∀ c ∈ (ofActs ending time x acts).calls, c.1 ≤ (ofActs ending time x acts).finish
  | [], _, _, c, hc => absurd hc List.not_mem_nil
  | .call make :: acts, time, x, c, hc => by
    rw [ofActs] at hc ⊢
    rcases List.mem_cons.1 hc with rfl | hc
    · split_ifs
      · exact le_finish acts time _
      · exact Nat.le_refl _
    · split_ifs at hc ⊢
      · exact le_finish_of_mem_calls acts time _ c hc
      · exact absurd hc List.not_mem_nil
  | .attempt make :: acts, time, x, c, hc => by
    rcases List.mem_cons.1 hc with rfl | hc
    · exact le_finish acts time _
    · exact le_finish_of_mem_calls acts time _ c hc
  | .sleep ms :: acts, time, x, c, hc => le_finish_of_mem_calls acts (time + ms) x c hc
  | .note make :: acts, time, x, c, hc => le_finish_of_mem_calls acts time x c hc

/-- The messages of a timeline are what it adds to the exchange. -/
theorem sent_exchange : ∀ (acts : List (Act ν)) (time : Nat) (x : Exchange),
    (ofActs ending time x acts).exchange.sent
      = x.sent ++ (ofActs ending time x acts).calls.map Prod.snd
  | [], _, x => (List.append_nil x.sent).symm
  | .call make :: acts, time, x => by
    rw [ofActs]
    split_ifs
    · exact (sent_exchange acts time _).trans (List.append_assoc ..)
    · rfl
  | .attempt make :: acts, time, x => (sent_exchange acts time _).trans (List.append_assoc ..)
  | .sleep ms :: acts, time, x => sent_exchange acts (time + ms) x
  | .note make :: acts, time, x => sent_exchange acts time x

end Timeline

/-- What the program does that begins on an exchange and that nobody stops. -/
def Program.timeline (p : Program ν) (x : Exchange) : Timeline :=
  .ofActs p.ending 0 x p.acts

namespace Timeline

/-- All calls are sent that are made before some time, and none that are made later. -/
def Sends (run : Timeline) (elapsed : Nat) (y : Exchange) : Prop :=
  ∃ made left, run.calls = made ++ left ∧ (∀ c ∈ made, c.1 ≤ elapsed)
    ∧ (∀ c ∈ left, elapsed ≤ c.1) ∧ y.sent = made.map Prod.snd

/-- When a handler is over or given up, counted from its start, and what it leaves. -/
inductive Leaves (run : Timeline) (timeLimit : Option Nat) : Nat → Exchange → Ending → Prop
  | finished (h : ∀ limit, timeLimit = some limit → run.finish < limit) :
    Leaves run timeLimit run.finish run.exchange run.ending
  | cut {limit : Nat} {y : Exchange} (hl : timeLimit = some limit) (h : limit < run.finish)
    (hy : run.Sends limit y) : Leaves run timeLimit limit y (.failed (.timeout limit))

end Timeline

theorem Program.timeline_sends (p : Program ν) {x : Exchange} (hx : x.sent = []) :
    (p.timeline x).Sends (p.timeline x).finish (p.timeline x).exchange := by
  refine ⟨_, [], (List.append_nil _).symm, Timeline.le_finish_of_mem_calls p.acts 0 x,
    fun c hc => absurd hc List.not_mem_nil, ?_⟩
  have h : (p.timeline x).exchange.sent = x.sent ++ (p.timeline x).calls.map Prod.snd :=
    Timeline.sent_exchange p.acts 0 x
  rwa [hx, List.nil_append] at h

/-! ## Turns of the handler -/

/-- A handler stops where its timeline goes on later, or where it ends. -/
inductive Burst.Follows (ending : Ending) (time : Nat) (x : Exchange) (acts : List (Act ν)) :
    Burst ν → Prop
  | asleep {y : Exchange} {notes : List ν} {ms : Nat} {rest : List (Act ν)}
    {made : List (Nat × Message)}
    (h : Timeline.ofActs ending time x acts
      = (Timeline.ofActs ending (time + ms) y rest).after made)
    (hms : 0 < ms) (ht : ∀ c ∈ made, c.1 = time) (hy : y.sent = x.sent ++ made.map Prod.snd) :
    Follows ending time x acts ⟨y, notes, .asleep ms rest⟩
  | stopped {y : Exchange} {notes : List ν} {ending' : Ending} {made : List (Nat × Message)}
    (h : Timeline.ofActs ending time x acts = ⟨made, time, y, ending'⟩) :
    Follows ending time x acts ⟨y, notes, .over ending'⟩

section Burst

variable {ending : Ending} {time : Nat} {x : Exchange} {a : Act ν} {acts : List (Act ν)}
  {b : Burst ν}

/-- A handler that sends a message and goes on. -/
theorem Burst.Follows.send {message : Message} (h : b.Follows ending time (x.send message) acts)
    (he : Timeline.ofActs ending time x (a :: acts)
      = (Timeline.ofActs ending time (x.send message) acts).after [(time, message)]) :
    b.Follows ending time x (a :: acts) := by
  cases h with
  | @asleep y notes ms rest made h hms ht hy =>
    rw [h, Timeline.after_after] at he
    refine .asleep he hms (List.forall_mem_cons.2 ⟨rfl, ht⟩) ?_
    rw [hy]
    exact List.append_assoc ..
  | stopped h =>
    rw [h] at he
    exact .stopped he

/-- A handler that says nothing and goes on. -/
theorem Burst.Follows.skip (h : b.Follows ending time x acts)
    (he : Timeline.ofActs ending time x (a :: acts) = Timeline.ofActs ending time x acts) :
    b.Follows ending time x (a :: acts) := by
  cases h with
  | asleep h hms ht hy => exact .asleep (he.trans h) hms ht hy
  | stopped h => exact .stopped (he.trans h)

theorem Burst.run_follows (history : List ν) : ∀ (acts : List (Act ν)) (x : Exchange)
    (notes : List ν), (∀ a ∈ acts, a.Private) →
      (Burst.run history ending x notes acts).Follows ending time x acts
  | [], x, notes, _ => .stopped rfl
  | .call make :: acts, x, notes, hp => by
    obtain ⟨hfirst, hrest⟩ := List.forall_mem_cons.1 hp
    rw [run, hfirst, Exchange.perform]
    by_cases ha : x.accepts ((make []).message x.state) = true
    · rw [if_pos ha]
      refine (run_follows history acts _ notes hrest).send ?_
      rw [Timeline.ofActs, if_pos ha]
    · have he : Timeline.ofActs ending time x (.call make :: acts)
          = ⟨[(time, (make []).message x.state)], time, x.send ((make []).message x.state),
            .failed (.error (Exchange.refusal ((make []).message x.state)))⟩ := by
        rw [Timeline.ofActs, if_neg ha]
        rfl
      rw [if_neg ha]
      exact .stopped he
  | .attempt make :: acts, x, notes, hp => by
    obtain ⟨hfirst, hrest⟩ := List.forall_mem_cons.1 hp
    rw [run, hfirst]
    exact (run_follows history acts _ notes hrest).send rfl
  | .sleep ms :: acts, x, notes, hp => by
    have hrest := (List.forall_mem_cons.1 hp).2
    rw [run]
    split_ifs with hms
    · exact (run_follows history acts x notes hrest).skip (by rw [Timeline.ofActs, hms]; rfl)
    · have he : Timeline.ofActs ending time x (.sleep ms :: acts)
          = (Timeline.ofActs ending (time + ms) x acts).after [] := rfl
      exact .asleep he (Nat.pos_of_ne_zero hms) (fun c hc => absurd hc List.not_mem_nil)
        (List.append_nil _).symm
  | .note make :: acts, x, notes, hp =>
    (run_follows history acts x _ (List.forall_mem_cons.1 hp).2).skip rfl

end Burst

end SlashCommands
