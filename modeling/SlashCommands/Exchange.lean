import SlashCommands.Failure
import SlashCommands.Invocation
import SlashCommands.Payload

/-!
# Exchanges

An exchange is an invocation together with what was sent in answer to it. Messages go out through a
transport that may refuse any of them; a refused message was still sent, but does not count as an
answer. The reply state only moves forward: from pending over deferred to replied.
-/

namespace SlashCommands

/-- A text for the user. -/
structure Reply where
  content : String
  /-- Whether only the user who used the command sees it. -/
  ephemeral : Bool
deriving DecidableEq, Inhabited

/-- What a transport can be asked to do. -/
inductive Verb
  | reply
  | edit
  | followUp
  | defer
  | respond
deriving DecidableEq

namespace Verb

/-- The verbs, in the order of the interface. -/
def all : List Verb :=
  [reply, edit, followUp, defer, respond]

/-- The verb as messages and scripts name it. -/
def name : Verb → String
  | reply => "reply"
  | edit => "edit"
  | followUp => "follow_up"
  | defer => "defer"
  | respond => "respond"

/-- The verb of a name. -/
def ofName? (name : String) : Option Verb :=
  all.find? fun v => v.name == name

end Verb

/-- A message to the transport. -/
inductive Message
  | reply (reply : Reply)
  | edit (reply : Reply)
  | followUp (reply : Reply)
  | defer (ephemeral : Bool)
  | respond (suggestions : List ChoicePayload)
deriving DecidableEq

/-- The verb a message is sent by. -/
def Message.verb : Message → Verb
  | reply _ => .reply
  | edit _ => .edit
  | followUp _ => .followUp
  | defer _ => .defer
  | respond _ => .respond

/-- How far an invocation has been answered. -/
inductive ReplyState
  | pending
  | deferred
  | replied
deriving DecidableEq, Inhabited

namespace ReplyState

/-- The state as the log names it. -/
def name : ReplyState → String
  | pending => "Pending"
  | deferred => "Deferred"
  | replied => "Replied"

/-- The state after a message went through. -/
def after (s : ReplyState) : Message → ReplyState
  | .reply _ => replied
  | .edit _ => replied
  | .defer _ => if s = pending then deferred else s
  | .followUp _ => s
  | .respond _ => s

/-- The message that the state allows: an edit of a deferred answer, a follow-up to one that was
given, or else a first reply. -/
def channel (s : ReplyState) (reply : Reply) : Message :=
  match s with
  | pending => .reply reply
  | deferred => .edit reply
  | replied => .followUp reply

end ReplyState

/-- What a handler asks for: a certain message, or a reply by whatever message is allowed. -/
inductive ReplyCall
  | send (message : Message)
  | notify (reply : Reply)
deriving DecidableEq

/-- The message of a call. A notice takes whichever verb the state allows. -/
def ReplyCall.message (call : ReplyCall) (s : ReplyState) : Message :=
  match call with
  | send message => message
  | notify reply => s.channel reply

/-- Whether a transport takes a message, given those that were sent before. -/
abbrev Transport := List Message → Message → Bool

/-- A transport that takes all messages but those of some kinds. -/
def Transport.without (refused : List Verb) : Transport := fun _ message =>
  !refused.contains message.verb

/-- One invocation, where its messages go, and what was sent so far. -/
structure Exchange where
  invocation : Invocation
  transport : Transport
  state : ReplyState
  sent : List Message

namespace Exchange

/-- An exchange in which nothing was sent. -/
def new (invocation : Invocation) (transport : Transport) : Exchange :=
  ⟨invocation, transport, .pending, []⟩

/-- The error of a message the transport refused. -/
def refusal (message : Message) : ErrorChain :=
  (ErrorChain.ofText "gone").within (message.verb.name ++ " failed")

/-- Whether the transport takes a message after those sent so far. -/
def accepts (x : Exchange) (message : Message) : Bool :=
  x.transport x.sent message

/-- Sends a message; what is refused leaves the state as it was. -/
def send (x : Exchange) (message : Message) : Exchange :=
  { x with
    sent := x.sent ++ [message]
    state := if x.accepts message then x.state.after message else x.state }

/-- The exchange after a call, and the error if the message was refused. -/
def perform (x : Exchange) (call : ReplyCall) : Exchange × Option ErrorChain :=
  let message := call.message x.state
  (x.send message, if x.accepts message then none else some (refusal message))

end Exchange

end SlashCommands
