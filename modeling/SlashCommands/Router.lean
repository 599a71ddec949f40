import SlashCommands.Program
import SlashCommands.Registry
import SlashCommands.Settings

/-!
# Routing

What becomes of an event is settled when its turn comes: it is ignored, rejected at a gate, finds no
handler, or is handed to a handler or a completion. `Router.plan` says which.
-/

namespace SlashCommands

/-- What arrives from the platform: a command was used, or suggestions are wanted. -/
inductive Event
  | invocation (invocation : Invocation)
  | completion (request : Request)
deriving DecidableEq

/-- The invocation the event is about. A request for suggestions holds one half typed. -/
def Event.subject : Event → Invocation
  | invocation i => i
  | completion request => request.invocation

/-- How an event ended. -/
inductive Outcome
  /-- There is no such command. -/
  | ignored
  | rejected (gate : Gate)
  /-- The command has no handler for the path. -/
  | unhandled
  | completed
  /-- Nothing completes the argument. -/
  | noCallback
  /-- So many suggestions were sent. -/
  | responded (count : Nat)
  | failed
deriving DecidableEq, Inhabited

/-- The outcome as it is printed. -/
def Outcome.text : Outcome → String
  | ignored => "Ignored"
  | rejected gate => "Rejected(" ++ gate.name ++ ")"
  | unhandled => "Unhandled"
  | completed => "Completed"
  | noCallback => "NoCallback"
  | responded count => "Responded(" ++ toString count ++ ")"
  | failed => "Failed"

/-- What is to be done for an event, with all that doing it takes. -/
inductive Plan (ν : Type)
  | ignore
  | reject (command : String) (gate : Gate) (text : String)
  | unhandled
  | handle (command : String) (path : Path) (program : Program ν)
  | noCallback
  | complete (command argument : String) (program : Program ν)

/-- The text for somebody a gate is shut to. -/
def Messages.rejection (m : Messages) : Gate → String
  | .channel => m.wrongChannel
  | .permissions => m.missingPermissions
  | .roles => m.missingRoles

/-- A command whose handlers and completions make notes of type `ν`. -/
abbrev Command (ν : Type) := Spec (Action ν) (Completion ν)

/-- A registry of such commands. -/
abbrev CommandRegistry (ν : Type) := Registry (Action ν) (Completion ν)

/-- What the router takes from the settings; times are in milliseconds. -/
structure Router where
  noticeDelay : Nat
  timeLimit : Option Nat
  messages : Messages

namespace Router

variable {ν : Type}

/-- The router of a settings file. -/
def ofSettings (s : Settings) : Router where
  noticeDelay := s.noticeDelay.toNat
  timeLimit := s.timeLimit.map UInt64.toNat
  messages := s.messages

/-- An invocation goes through the gates, and then to the handler of its path. -/
def planInvocation (router : Router) (registry : CommandRegistry ν) (i : Invocation) : Plan ν :=
  match registry.get? i.command with
  | none => .ignore
  | some spec =>
    match spec.shutGate? i with
    | some gate => .reject spec.name gate (router.messages.rejection gate)
    | none =>
      match spec.handler.resolve i.path with
      | some action => .handle spec.name i.path (action i)
      | none => .unhandled

/-- A request goes to the callback of the argument. No gate stands before it. -/
def planCompletion (registry : CommandRegistry ν) (request : Request) : Plan ν :=
  match registry.get? request.invocation.command with
  | none => .ignore
  | some spec =>
    match spec.callbackFor request.invocation.path request.focused with
    | some completion => .complete spec.name request.focused (completion request)
    | none => .noCallback

/-- What becomes of an event, by the commands of a registry. -/
def plan (router : Router) (registry : CommandRegistry ν) : Event → Plan ν
  | .invocation i => router.planInvocation registry i
  | .completion request => planCompletion registry request

end Router

end SlashCommands
