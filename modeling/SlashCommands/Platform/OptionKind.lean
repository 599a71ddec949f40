/-!
# Option kinds

What an entry of a registration payload is: a container of further options or an argument of some
primitive kind.
-/

namespace SlashCommands

/-- What an option of a payload is. -/
inductive OptionKind
  | subcommand
  | subcommandGroup
  | string
  | integer
  | boolean
  | user
  | channel
  | role
  | mentionable
  | number
  | attachment
deriving DecidableEq, Inhabited

namespace OptionKind

/-- The number of a kind on the wire. -/
def code : OptionKind → UInt8
  | subcommand => 1
  | subcommandGroup => 2
  | string => 3
  | integer => 4
  | boolean => 5
  | user => 6
  | channel => 7
  | role => 8
  | mentionable => 9
  | number => 10
  | attachment => 11

/-- All kinds. -/
def all : List OptionKind :=
  [subcommand, subcommandGroup, string, integer, boolean, user, channel, role, mentionable, number,
   attachment]

/-- The kind of a number. -/
def ofCode? (code : UInt8) : Option OptionKind :=
  all.find? fun kind => kind.code == code

/-- The kind as it is printed. -/
def name : OptionKind → String
  | subcommand => "SubCommand"
  | subcommandGroup => "SubCommandGroup"
  | string => "String"
  | integer => "Integer"
  | boolean => "Boolean"
  | user => "User"
  | channel => "Channel"
  | role => "Role"
  | mentionable => "Mentionable"
  | number => "Number"
  | attachment => "Attachment"

/-- What is said of a code that names no option kind. -/
def unknownCode (code : UInt8) : String :=
  "unknown option kind code " ++ toString code.toNat

theorem ofCode?_code (kind : OptionKind) : ofCode? kind.code = some kind := by
  cases kind <;> rfl

end OptionKind

end SlashCommands
