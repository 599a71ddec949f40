import SlashCommands.Platform.Permission
import SlashCommands.Tree

/-!
# Registration payloads

What is sent to the platform to register a command: its description and the nested options.
`compile` turns the parts of a command into its payload; nothing of the tree is lost on the way.
-/

namespace SlashCommands

/-- A fixed choice or a suggestion: what is shown and what is sent. -/
structure ChoicePayload where
  name : String
  value : Choice
deriving DecidableEq, Inhabited

/-- A choice is shown as its text. -/
def ChoicePayload.ofChoice (value : Choice) : ChoicePayload :=
  ⟨value.text, value⟩

/-- An option as the platform takes it: an argument, or a subcommand or subgroup with its own
options. -/
structure OptionPayload where
  kind : OptionKind
  name : String
  description : String
  localizations : Localizations
  required : Bool
  choices : List ChoicePayload
  options : List OptionPayload
  channelTypes : List ChannelKind
  minValue : Option Number
  maxValue : Option Number
  minLength : Option UInt16
  maxLength : Option UInt16
  autocomplete : Bool
deriving Inhabited

/-- A command as the platform takes it. -/
structure CommandPayload where
  name : String
  kind : UInt8
  description : String
  localizations : Localizations
  options : List OptionPayload
  /-- The bitfield, in decimal, of the permissions a member needs to see the command. -/
  memberPermissions : Option String
deriving Inhabited

namespace OptionPayload

/-- An option that only holds other options. -/
def container (kind : OptionKind) (name description : String) (localizations : Localizations)
    (options : List OptionPayload) : OptionPayload where
  kind := kind
  name := name
  description := description
  localizations := localizations
  required := false
  choices := []
  options := options
  channelTypes := []
  minValue := none
  maxValue := none
  minLength := none
  maxLength := none
  autocomplete := false

/-- An argument as an option, with its bounds and choices. -/
def ofArgument (a : Argument) : OptionPayload where
  kind := a.type.optionKind
  name := a.name
  description := a.description
  localizations := a.localizations
  required := a.required
  choices := a.choices.map .ofChoice
  options := []
  channelTypes := a.type.channelKinds
  minValue := a.min
  maxValue := a.max
  minLength := a.minLength
  maxLength := a.maxLength
  autocomplete := a.autocomplete

/-- A subcommand as an option that holds its arguments. -/
def ofSubcommand (s : Subcommand) : OptionPayload :=
  container .subcommand s.name s.description s.localizations (s.arguments.map ofArgument)

/-- A subgroup as an option that holds its subcommands. -/
def ofSubgroup (g : Subgroup) : OptionPayload :=
  container .subcommandGroup g.name g.description g.localizations (g.subcommands.map ofSubcommand)

/-- A child of the command as an option. -/
def ofChild : Child → OptionPayload
  | .subcommand s => ofSubcommand s
  | .subgroup g => ofSubgroup g

end OptionPayload

namespace CommandPayload

/-- The platform's type code of a command that is typed. -/
def chatInput : UInt8 := 1

/-- The payload of a command. Options stand in the order of the tree, arguments before children. -/
def compile (name description : String) (localizations : Localizations) (t : Tree)
    (permissions : List Permission) : CommandPayload where
  name := name
  kind := chatInput
  description := description
  localizations := localizations
  options := t.arguments.map .ofArgument ++ t.children.map .ofChild
  memberPermissions :=
    if permissions.isEmpty then none else some (toString (Permission.bitfield permissions))

end CommandPayload

end SlashCommands
