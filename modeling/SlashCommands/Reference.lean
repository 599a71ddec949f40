import SlashCommands.Tree

/-!
# References

A reference names a node or an argument the way it is typed: `group add <name>`. Only its words
count; brackets, stars and everything from a colon to the next bracket are ignored.
`Reference.resolve` finds what the words name in a tree.
-/

namespace SlashCommands

/-- What a reference points at. -/
inductive Target
  | command
  | subgroup (name : String)
  | subcommand (path : Path)
  | argument (path : Path) (name : String)
deriving DecidableEq

namespace Reference

/-- Drops each colon with what follows it up to the next bracket. `inside` says whether a colon came
before. -/
def dropAnnotations (inside : Bool) : List Char → List Char
  | [] => []
  | c :: cs =>
    if c = '<' || c = '>' || c = '[' || c = ']' then c :: dropAnnotations false cs
    else if inside || c = ':' then dropAnnotations true cs
    else c :: dropAnnotations false cs

/-- The characters that a word of a reference may have. -/
def isKept (c : Char) : Bool :=
  Text.isAlphanumeric c || c = '-' || c = '_'

/-- The words of a reference. -/
def words (raw : String) : List String :=
  let plain := (dropAnnotations false raw.toList).map fun c =>
    if isKept c || Text.isBlank c then c else ' '
  (Text.words plain).map String.ofList

/-- Whether the key stands for everything without a key of its own. -/
def isDefault (raw : String) : Bool :=
  Text.trimmed raw == defaultKey

/-- What the words of a reference name. -/
def resolveWords (t : Tree) : List String → Option Target
  | [one] =>
    if (t.subgroup? one).isSome then some (.subgroup one)
    else if (t.subcommand? one).isSome then some (.subcommand (.ofSubcommand one))
    else if t.arguments.any fun a => a.name == one then some (.argument .root one)
    else none
  | [first, second] =>
    match t.subgroup? first with
    | some group =>
      (group.subcommand? second).map fun _ => .subcommand (.nested first second)
    | none =>
      ((t.subcommand? first).bind fun s => s.argument? second).map fun _ =>
        .argument (.ofSubcommand first) second
  | [group, sub, argument] =>
    ((t.nested? group sub).bind fun s => s.argument? argument).map fun _ =>
      .argument (.nested group sub) argument
  | _ => none

/-- What a reference points at, the command itself under the default key. -/
def resolve (t : Tree) (raw : String) : Checked Target :=
  if isDefault raw then .ok .command
  else match resolveWords t (words raw) with
    | some target => .ok target
    | none => .error (.notFound "documentation reference" raw)

end Reference

end SlashCommands
