import SlashCommands.Literal
import SlashCommands.Path
import SlashCommands.Platform.Permission

/-!
# Invocations

An invocation is a command somebody used, with the options they gave, the channel they were in and
who they are. It says nothing about how it is answered.
-/

namespace SlashCommands

/-- A value given for an argument. Users, roles, channels and attachments arrive as their ids. -/
inductive OptionValue
  | boolean (value : Bool)
  | integer (value : Int64)
  | float (value : Binary64)
  | string (value : String)
deriving DecidableEq, Inhabited

/-- The channel a command was used in. -/
structure ChannelRef where
  id : String
  name : String
deriving DecidableEq, Inhabited

/-- A role of a member. -/
structure RoleRef where
  id : String
  name : String
deriving DecidableEq, Inhabited

/-- The guild member who used a command. -/
structure Member where
  userId : String
  permissions : SortedSet Permission
  roles : List RoleRef
deriving DecidableEq, Inhabited

/-- One use of a command, as the platform reports it. -/
structure Invocation where
  command : String
  subgroup : Option String
  subcommand : Option String
  options : SortedMap String OptionValue
  channel : Option ChannelRef
  guildId : Option String
  member : Option Member
deriving DecidableEq, Inhabited

/-- Whether a reference is the id, or the name if there is one. -/
def matchesRef (id name reference : String) : Bool :=
  id == reference || (!name.isEmpty && name == reference)

/-- Whether a command that names the reference means the channel. -/
def ChannelRef.isMeant (c : ChannelRef) (reference : String) : Bool :=
  matchesRef c.id c.name reference

namespace Member

/-- An administrator has every permission. -/
def hasPermission (m : Member) (p : Permission) : Bool :=
  m.permissions.contains .administrator || m.permissions.contains p

/-- Whether the member has the role, by its id or its name. -/
def hasRole (m : Member) (reference : String) : Bool :=
  m.roles.any fun role => role.id == reference || role.name == reference

end Member

namespace Invocation

/-- A use of a command with nothing but its name. -/
def new (command : String) : Invocation where
  command := command
  subgroup := none
  subcommand := none
  options := .empty
  channel := none
  guildId := none
  member := none

/-- Something that is said of an invocation. -/
inductive Detail
  | subgroup (name : String)
  | subcommand (name : String)
  | option (name : String) (value : OptionValue)
  | channel (id name : String)
  | guild (id : String)
  | member (member : Member)

/-- The invocation with one detail more; what was said of it before is replaced. -/
def extend (i : Invocation) : Detail → Invocation
  | .subgroup name => { i with subgroup := some name }
  | .subcommand name => { i with subcommand := some name }
  | .option name value => { i with options := i.options.insert name value }
  | .channel id name => { i with channel := some ⟨id, name⟩ }
  | .guild id => { i with guildId := some id }
  | .member member => { i with member := some member }

/-- Where its handler is looked up. -/
def path (i : Invocation) : Path :=
  .ofParts i.subgroup i.subcommand

/-- The text given for an option. -/
def string? (i : Invocation) (name : String) : Option String :=
  match i.options.find? name with
  | some (.string value) => some value
  | _ => none

/-- The integer given for an option. -/
def integer? (i : Invocation) (name : String) : Option Int64 :=
  match i.options.find? name with
  | some (.integer value) => some value
  | _ => none

/-- A number; an integer widens to a double. -/
def float? (i : Invocation) (name : String) : Option Binary64 :=
  match i.options.find? name with
  | some (.float value) => some value
  | some (.integer value) => some (.ofInt value.toInt)
  | _ => none

/-- The truth value given for an option. -/
def boolean? (i : Invocation) (name : String) : Option Bool :=
  match i.options.find? name with
  | some (.boolean value) => some value
  | _ => none

end Invocation

end SlashCommands
