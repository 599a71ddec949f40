import SlashCommands.Payload
import SlashCommands.Routes

/-!
# Sealed commands

A `Spec` is a command that was sealed: its tree, its access rules, its callbacks by argument, its
handlers, and the payload it is registered with.
-/

namespace SlashCommands

/-- An argument by the path of its node and its name. -/
abbrev Slot := Path × String

/-- A command that was sealed. `η` is the type of its handlers, `κ` that of its callbacks. -/
structure Spec (η κ : Type) where
  name : String
  description : String
  localizations : Localizations
  tree : Tree
  callbacks : List (Slot × κ)
  callbackFallback : Option κ
  permissions : SortedSet Permission
  roles : SortedSet String
  channels : SortedSet String
  guilds : SortedSet String
  handler : Handler η
  payload : CommandPayload

namespace Spec

variable {η κ : Type}

/-- Whether the command names no guild of its own. -/
def isGlobal (s : Spec η κ) : Bool :=
  s.guilds.isEmpty

/-- The callback of an argument, or else the one for every argument. -/
def callbackFor (s : Spec η κ) (p : Path) (argument : String) : Option κ :=
  ((s.callbacks.find? fun c => c.1 == (p, argument)).map (·.2)) <|> s.callbackFallback

end Spec

end SlashCommands
