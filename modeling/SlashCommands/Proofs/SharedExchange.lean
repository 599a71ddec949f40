import Mathlib.Data.List.Basic
import SlashCommands.Proofs.ReplyJoin

/-!
# Shared exchanges

Any number of tasks hold one exchange, and their calls interleave. A call takes three moves: it
chooses its message by the state it finds, the transport takes the message or refuses it, and what
was taken is recorded. Other tasks may do anything between two of these, so a deferral can be
recorded long after a reply that was called for later.

Every move keeps the recorded state the join of the messages of the calls that are over and went
through (`Sharing.step_joins`), and no move leads it back (`Sharing.rank_le_step`). A task that is
not interrupted does what an exchange does at once (`Sharing.uninterrupted`).
-/

namespace SlashCommands

/-- How far a task is with its call. -/
inductive Errand
  | idle
  /-- The message is with the transport. -/
  | sending (message : Message)
  /-- The transport took the message, and the state does not show it yet. -/
  | taken (message : Message)
deriving DecidableEq

/-- An exchange that several tasks send on at the same time. -/
structure Sharing where
  state : ReplyState
  tasks : List Errand
  /-- The messages of the calls that are over and went through, in the order in which the calls
  ended. -/
  went : List Message

/-- One move. A number says which of the tasks moves. -/
inductive Sharing.Move
  /-- One more task takes hold of the exchange. -/
  | share
  | call (i : Nat) (call : ReplyCall)
  | take (i : Nat)
  /-- The transport refuses the message, or the task is given up while it waits. -/
  | refuse (i : Nat)
  | record (i : Nat)

namespace Sharing

/-- An exchange before its first call. -/
def start : Sharing where
  state := .pending
  tasks := []
  went := []

/-- What one move makes of the exchange. -/
def step (t : Sharing) : Move → Sharing
  | .share => { t with tasks := t.tasks ++ [.idle] }
  | .call i call =>
    match t.tasks[i]? with
    | some .idle => { t with tasks := t.tasks.set i (.sending (call.message t.state)) }
    | _ => t
  | .take i =>
    match t.tasks[i]? with
    | some (.sending message) => { t with tasks := t.tasks.set i (.taken message) }
    | _ => t
  | .refuse i =>
    match t.tasks[i]? with
    | some (.sending _) => { t with tasks := t.tasks.set i .idle }
    | _ => t
  | .record i =>
    match t.tasks[i]? with
    | some (.taken message) =>
      { state := t.state.after message
        tasks := t.tasks.set i .idle
        went := t.went ++ [message] }
    | _ => t

/-- The exchange after some moves. -/
def run (ms : List Move) : Sharing :=
  ms.foldl step start

/-! ## One move -/

/-- A move leaves the record as it is, or adds one message to it. -/
theorem step_cases (t : Sharing) (move : Move) :
    ((t.step move).state = t.state ∧ (t.step move).went = t.went)
      ∨ ∃ m, (t.step move).state = t.state.after m ∧ (t.step move).went = t.went ++ [m] := by
  cases move with
  | share => exact .inl ⟨rfl, rfl⟩
  | call i call =>
    rw [step]
    split <;> exact .inl ⟨rfl, rfl⟩
  | take i =>
    rw [step]
    split <;> exact .inl ⟨rfl, rfl⟩
  | refuse i =>
    rw [step]
    split <;> exact .inl ⟨rfl, rfl⟩
  | record i =>
    rw [step]
    split
    · exact .inr ⟨_, rfl, rfl⟩
    · exact .inl ⟨rfl, rfl⟩

theorem step_joins {t : Sharing} (h : t.state.Joins t.went) (move : Move) :
    (t.step move).state.Joins (t.step move).went := by
  rcases t.step_cases move with ⟨hs, hw⟩ | ⟨m, hs, hw⟩
  · rw [hs, hw]
    exact h
  · rw [hs, hw]
    exact h.concat m

theorem rank_le_step (t : Sharing) (move : Move) : t.state.rank ≤ (t.step move).state.rank := by
  rcases t.step_cases move with ⟨hs, -⟩ | ⟨m, hs, -⟩
  · exact Nat.le_of_eq (congrArg ReplyState.rank hs.symm)
  · rw [hs]
    exact t.state.rank_le_after m

/-! ## All moves -/

theorem foldl_joins : ∀ (ms : List Move) {t : Sharing}, t.state.Joins t.went →
    (ms.foldl step t).state.Joins (ms.foldl step t).went
  | [], _, h => h
  | move :: ms, _, h => foldl_joins ms (step_joins h move)

theorem run_joins (ms : List Move) : (run ms).state.Joins (run ms).went :=
  foldl_joins ms .nil

theorem rank_le_foldl : ∀ (ms : List Move) (t : Sharing),
    t.state.rank ≤ (ms.foldl step t).state.rank
  | [], _ => Nat.le_refl _
  | move :: ms, t => Nat.le_trans (t.rank_le_step move) (rank_le_foldl ms (t.step move))

/-! ## A task by itself -/

/-- The moves of a whole call, if the transport answers as that of an exchange does. -/
def wholeCall (x : Exchange) (i : Nat) (call : ReplyCall) : List Move :=
  if x.accepts (call.message x.state) then [.call i call, .take i, .record i]
  else [.call i call, .refuse i]

section Steps

variable {t : Sharing} {i : Nat} {message : Message}

theorem step_call (h : t.tasks[i]? = some .idle) (call : ReplyCall) :
    t.step (.call i call)
      = { t with tasks := t.tasks.set i (.sending (call.message t.state)) } := by
  simp only [step, h]

theorem step_take (h : t.tasks[i]? = some (.sending message)) :
    t.step (.take i) = { t with tasks := t.tasks.set i (.taken message) } := by
  simp only [step, h]

theorem step_refuse (h : t.tasks[i]? = some (.sending message)) :
    t.step (.refuse i) = { t with tasks := t.tasks.set i .idle } := by
  simp only [step, h]

theorem step_record (h : t.tasks[i]? = some (.taken message)) :
    t.step (.record i) = ⟨t.state.after message, t.tasks.set i .idle, t.went ++ [message]⟩ := by
  simp only [step, h]

end Steps

theorem uninterrupted {t : Sharing} {x : Exchange} {i : Nat} (hi : t.tasks[i]? = some .idle)
    (hs : x.state = t.state) (call : ReplyCall) :
    ((wholeCall x i call).foldl step t).state = (x.perform call).1.state
      ∧ ((wholeCall x i call).foldl step t).tasks = t.tasks := by
  obtain ⟨hlt, hidle⟩ := List.getElem?_eq_some_iff.1 hi
  have hback : t.tasks.set i .idle = t.tasks := by rw [← hidle, List.set_getElem_self]
  have hset : ∀ e : Errand, (t.tasks.set i e)[i]? = some e := fun e =>
    List.getElem?_set_self hlt
  rw [wholeCall, hs]
  split
  · rename_i ha
    simp only [List.foldl_cons, List.foldl_nil]
    rw [step_call hi, step_take (hset _), step_record (by rw [List.set_set, hset])]
    simp [Exchange.perform, Exchange.send, ha, hs, hback]
  · rename_i ha
    simp only [List.foldl_cons, List.foldl_nil]
    rw [step_call hi, step_refuse (hset _)]
    simp [Exchange.perform, Exchange.send, ha, hs, hback]

/-- Whatever the tasks do and however their moves are mixed, the recorded state is replied if a
first or an edited reply went through, deferred if none did but a deferral, and pending otherwise;
and it never goes back. -/
theorem state_is_join (ms : List Move) :
    ((run ms).state = .replied ↔ ∃ m ∈ (run ms).went, m.verb = .reply ∨ m.verb = .edit)
      ∧ ((run ms).state = .deferred ↔ (¬ ∃ m ∈ (run ms).went, m.verb = .reply ∨ m.verb = .edit)
        ∧ ∃ m ∈ (run ms).went, m.verb = .defer)
      ∧ ((run ms).state = .pending ↔ (¬ ∃ m ∈ (run ms).went, m.verb = .reply ∨ m.verb = .edit)
        ∧ ¬ ∃ m ∈ (run ms).went, m.verb = .defer)
      ∧ ∀ more, (run ms).state.rank ≤ (run (ms ++ more)).state.rank := by
  have h := run_joins ms
  refine ⟨h.replied, h.deferred, h.pending, fun more => ?_⟩
  rw [run, run, List.foldl_append]
  exact rank_le_foldl more _

end Sharing

end SlashCommands
