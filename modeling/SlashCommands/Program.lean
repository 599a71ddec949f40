import SlashCommands.Exchange

/-!
# Programs of handlers

What a handler or a completion does, step by step: it answers, sleeps, or makes a note, and ends in
one of three ways. All handlers share the notes that were made so far, so a note is also the memory
of a command from one invocation to the next. `ν` is the type of the notes.
-/

namespace SlashCommands

/-- A step of a handler or a completion. -/
inductive Act (ν : Type)
  /-- Answers, maybe with something that was noted before; the program fails if the message is
  refused. -/
  | call (make : List ν → ReplyCall)
  /-- Answers, and goes on even if the message is refused. -/
  | attempt (make : List ν → ReplyCall)
  | sleep (ms : Nat)
  /-- Makes a note, maybe of how far the invocation has been answered. -/
  | note (make : ReplyState → ν)

/-- How a program ends. A completion is done with its suggestions, a handler with none. -/
inductive Ending
  | done (suggestions : List Choice)
  | failed (failure : Failure)
deriving DecidableEq

/-- The steps one after the other, and how it ends after them. -/
structure Program (ν : Type) where
  acts : List (Act ν)
  ending : Ending

/-- A request for suggestions for the argument that a user is typing. -/
structure Request where
  invocation : Invocation
  focused : String
  /-- What was typed so far. -/
  query : String
deriving DecidableEq, Inhabited

/-- What is done for an invocation. -/
abbrev Action (ν : Type) := Invocation → Program ν

/-- What is done to complete an argument. -/
abbrev Completion (ν : Type) := Request → Program ν

namespace Program

variable {ν : Type}

/-- Does nothing and is done. -/
def finished : Program ν :=
  ⟨[], .done []⟩

/-- Answers with one text, for everybody to see. -/
def reply (content : String) : Program ν :=
  ⟨[.call fun _ => .send (.reply ⟨content, false⟩)], .done []⟩

end Program

end SlashCommands
