import SlashCommands.Text.Blank

/-!
# Paths

The address of a node inside a command: an optional subgroup and an optional subcommand. Neither is
the command itself, a subgroup alone is the whole subgroup.
-/

namespace SlashCommands

/-- A place in a command. Whether something stands there is up to the tree. -/
structure Path where
  subgroup : Option String
  subcommand : Option String
deriving DecidableEq, Inhabited

/-- The key that means the command itself, or everything without an entry of its own. No name can be
equal to it, since names have no dollar sign. -/
def defaultKey : String := "$default"

namespace Path

/-- The command itself. -/
def root : Path :=
  ⟨none, none⟩

/-- A subcommand directly under the command. -/
def ofSubcommand (name : String) : Path :=
  ⟨none, some name⟩

/-- A subgroup as a whole. -/
def ofGroup (name : String) : Path :=
  ⟨some name, none⟩

/-- A subcommand of a subgroup. -/
def nested (subgroup subcommand : String) : Path :=
  ⟨some subgroup, some subcommand⟩

/-- Whether a component is given at all. -/
def isPresent (text : String) : Bool :=
  !Text.isBlankText text

/-- A path from the fields of an event, where a blank text is absent. -/
def ofParts (subgroup subcommand : Option String) : Path :=
  ⟨subgroup.filter isPresent, subcommand.filter isPresent⟩

/-- Whether it is the command itself. -/
def isRoot (p : Path) : Bool :=
  p.subgroup.isNone && p.subcommand.isNone

/-- The path of the subgroup alone. -/
def groupOnly (p : Path) : Option Path :=
  p.subgroup.map ofGroup

/-- The components with a blank between them. -/
def text (p : Path) : String :=
  match p.subgroup, p.subcommand with
  | some group, some sub => group ++ " " ++ sub
  | some group, none => group
  | none, some sub => sub
  | none, none => ""

end Path

end SlashCommands
