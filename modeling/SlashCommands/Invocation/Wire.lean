import SlashCommands.Invocation
import SlashCommands.Payload.Wire

/-!
# Invocations as JSON

All fields are written, absent ones as null; when reading, everything but the command and the ids
may be missing. Each option keeps its kind.
-/

namespace SlashCommands

namespace OptionValue

/-- The value as it is sent. -/
def toJson : OptionValue → Json
  | boolean value => .bool value
  | integer value => .int value.toInt
  | float value => .ofBinary64 value
  | string value => .str value

/-- A numeral as the value of an option: an integer if it fits, else a double. -/
def ofNumber : Number → OptionValue
  | .int value => integer value
  | .float value => float value

/-- Reads the value of an option by its shape. -/
def ofJson? : Json → Option OptionValue
  | .bool value => some (boolean value)
  | .str value => some (string value)
  | value => (Number.ofJson? value).map ofNumber

/-- The kind of the value in one word. -/
def kind : OptionValue → String
  | boolean _ => "boolean"
  | integer _ => "integer"
  | float _ => "float"
  | string _ => "string"

end OptionValue

/-- The JSON form of an id and a name, which are the fields of channels and roles. -/
def idNameToJson (id name : String) : Json :=
  .obj [("id", .str id), ("name", .str name)]

/-- Reads an id and a name; the name may be missing. -/
def readIdName (value : Json) : Option (String × String) := do
  let [id, name] ← value.record? ["id", "name"] | none
  let id ← Json.need Json.readString id
  let name ← Json.orElse Json.readString "" name
  return (id, name)

namespace Permission

/-- A permission is written as its name. -/
def toJson (p : Permission) : Json :=
  .str p.name

/-- Reads a permission in any spelling that requirements accept. -/
def ofJson? (value : Json) : Option Permission :=
  (Json.readString value).bind ofText?

end Permission

namespace Member

/-- The member with all its fields. -/
def toJson (m : Member) : Json :=
  .obj [("user_id", .str m.userId),
    ("permissions", .arr (m.permissions.toList.map Permission.toJson)),
    ("roles", .arr (m.roles.map fun role => idNameToJson role.id role.name))]

/-- Reads a member. Permissions and roles may be left out. -/
def ofJson? (value : Json) : Option Member := do
  let [userId, permissions, roles] ← value.record? ["user_id", "permissions", "roles"] | none
  let userId ← Json.need Json.readString userId
  let permissions ← Json.orElse (Json.readList Permission.ofJson?) [] permissions
  let roles ← Json.orElse (Json.readList readIdName) [] roles
  return ⟨userId, .ofList permissions, roles.map fun role => ⟨role.1, role.2⟩⟩

end Member

namespace Invocation

/-- The invocation with all its fields, the absent ones too. -/
def toJson (i : Invocation) : Json :=
  .obj [("command", .str i.command), ("subgroup", Json.ofOption Json.str i.subgroup),
    ("subcommand", Json.ofOption Json.str i.subcommand),
    ("options", Json.ofMap OptionValue.toJson i.options),
    ("channel", Json.ofOption (fun c => idNameToJson c.id c.name) i.channel),
    ("guild_id", Json.ofOption Json.str i.guildId),
    ("member", Json.ofOption Member.toJson i.member)]

/-- The fields of an invocation, in their order. -/
def fieldNames : List String :=
  ["command", "subgroup", "subcommand", "options", "channel", "guild_id", "member"]

/-- Reads an invocation. Everything but the command may be left out. -/
def ofJson? (value : Json) : Option Invocation := do
  let [command, subgroup, subcommand, options, channel, guildId, member] ←
    value.record? fieldNames | none
  let command ← Json.need Json.readString command
  let subgroup ← Json.orNone Json.readString subgroup
  let subcommand ← Json.orNone Json.readString subcommand
  let options ← Json.orElse (Json.readMap OptionValue.ofJson?) .empty options
  let channel ← Json.orNone readIdName channel
  let guildId ← Json.orNone Json.readString guildId
  let member ← Json.orNone Member.ofJson? member
  return {
    command, subgroup, subcommand, options
    channel := channel.map fun c => ⟨c.1, c.2⟩
    guildId, member }

end Invocation

end SlashCommands
