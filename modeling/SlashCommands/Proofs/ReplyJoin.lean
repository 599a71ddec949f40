import SlashCommands.Exchange

/-!
# What a reply state stands for

A reply state is the join of the messages that went through (`ReplyState.Joins`): replied if one of
them was a first or an edited reply, deferred if none was but one of them put the answer off, and
pending if there was neither. Each further message keeps this (`ReplyState.Joins.concat`), in
whatever order they come, and no message leads back to an earlier state
(`ReplyState.rank_le_after`).
-/

namespace SlashCommands

/-- A first or an edited reply. -/
def Message.IsAnswer (m : Message) : Prop :=
  m.verb = .reply ∨ m.verb = .edit

/-- Puts the answer off. -/
def Message.IsDeferral (m : Message) : Prop :=
  m.verb = .defer

namespace ReplyState

/-- The place of a state in the order in which states follow each other. -/
def rank : ReplyState → Nat
  | pending => 0
  | deferred => 1
  | replied => 2

theorem rank_le_after (s : ReplyState) (m : Message) : s.rank ≤ (s.after m).rank := by
  cases m <;> cases s <;> simp [after, rank]

/-- The state is what these messages, gone through in this order, lead to. -/
structure Joins (went : List Message) (s : ReplyState) : Prop where
  replied : s = .replied ↔ ∃ m ∈ went, m.IsAnswer
  deferred : s = .deferred ↔ (¬ ∃ m ∈ went, m.IsAnswer) ∧ ∃ m ∈ went, m.IsDeferral

namespace Joins

variable {went : List Message} {s : ReplyState}

theorem nil : Joins [] .pending := by
  constructor <;> simp

theorem pending (h : Joins went s) :
    s = .pending ↔ (¬ ∃ m ∈ went, m.IsAnswer) ∧ ¬ ∃ m ∈ went, m.IsDeferral := by
  have hr := h.replied
  have hd := h.deferred
  cases s with
  | pending =>
    simp only [reduceCtorEq, false_iff] at hr hd
    exact iff_of_true rfl ⟨hr, fun hp => hd ⟨hr, hp⟩⟩
  | deferred =>
    have := (hd.1 rfl).2
    simp [this]
  | replied =>
    have := hr.1 rfl
    simp [this]

theorem concat (h : Joins went s) (m : Message) : Joins (went ++ [m]) (s.after m) := by
  have hr := h.replied
  have hd := h.deferred
  cases m <;> cases s <;>
    constructor <;> simp_all [after, Message.IsAnswer, Message.IsDeferral, Message.verb]

end Joins

end ReplyState

end SlashCommands
