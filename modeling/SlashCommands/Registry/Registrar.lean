import SlashCommands.Failure
import SlashCommands.Invocation
import SlashCommands.Payload

/-!
# The registrar

Commands are registered with the platform in scopes: globally or in one guild. The registrar knows
the guilds; it can replace all commands of a scope or add a single one, and may refuse either.
-/

namespace SlashCommands

/-- Where commands are registered: everywhere, or in one guild. -/
inductive Scope
  | global
  | guild (id : String)
deriving DecidableEq

/-- The scope as messages name it. -/
def Scope.text : Scope → String
  | global => "global"
  | guild id => "guild <" ++ id ++ ">"

/-- A guild that commands can be registered in. -/
structure GuildContext where
  id : String
  name : String
deriving DecidableEq

/-- Whether a command that names the reference means the guild. -/
def GuildContext.isMeant (c : GuildContext) (reference : String) : Bool :=
  matchesRef c.id c.name reference

/-- The guild that a reference means: the first one listed with that id or name. -/
def findGuild (contexts : List GuildContext) (reference : String) : Option String :=
  (contexts.find? fun c => c.isMeant reference).map (·.id)

/-- The answers of the platform. -/
structure Registrar where
  contexts : Except ErrorChain (List GuildContext)
  /-- Replaces all commands of a scope. -/
  set : Scope → List CommandPayload → Except ErrorChain Unit
  /-- Adds one command to a scope. -/
  create : Scope → CommandPayload → Except ErrorChain Unit

/-- A request to the registrar. -/
inductive RegistrarCall
  | listContexts
  | set (scope : Scope) (commands : List CommandPayload)
  | create (scope : Scope) (command : CommandPayload)

end SlashCommands
