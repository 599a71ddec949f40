import SlashCommands.Invocation
import SlashCommands.Spec

/-!
# Access

Three gates stand before the handler of a command, and the first that is shut rejects an invocation.
Each gate is open to everybody unless the command asks for something there. Administrators have
every permission, but neither roles nor channels come with it.
-/

namespace SlashCommands

/-- A gate, in the order in which they are tried. -/
inductive Gate
  | channel
  | permissions
  | roles
deriving DecidableEq

/-- The gate as rejections and log lines name it. -/
def Gate.name : Gate → String
  | channel => "Channel"
  | permissions => "Permissions"
  | roles => "Roles"

namespace Spec

variable {η κ : Type}

/-- Open when the command names no channel, or the invocation comes from one it names. -/
def inChannel (s : Spec η κ) (i : Invocation) : Bool :=
  s.channels.isEmpty || i.channel.any fun c => s.channels.toList.any c.isMeant

/-- Open when the command asks for no permission, or the member holds every one it asks for. -/
def hasPermissions (s : Spec η κ) (i : Invocation) : Bool :=
  s.permissions.isEmpty || i.member.any fun m => s.permissions.toList.all m.hasPermission

/-- Open when the command asks for no role, or the member has every one it asks for. -/
def hasRoles (s : Spec η κ) (i : Invocation) : Bool :=
  s.roles.isEmpty || i.member.any fun m => s.roles.toList.all m.hasRole

/-- The first gate that is shut. -/
def shutGate? (s : Spec η κ) (i : Invocation) : Option Gate :=
  if !s.inChannel i then some .channel
  else if !s.hasPermissions i then some .permissions
  else if !s.hasRoles i then some .roles
  else none

end Spec

end SlashCommands
