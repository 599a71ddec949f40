import SlashCommands.Builder
import SlashCommands.Machine
import SlashCommands.Scripted

/-!
# The demo commands

A small set of commands to try things out with. What users tell some of them is remembered as notes,
so `subc get` answers with the color of the last `subc set`, and the lookups of `subg` find what was
stored first.
-/

namespace SlashCommands.Demo

/-- What the demo commands remember. -/
inductive Memory
  | color (value : String)
  | group (name description : String)
  | user (id data : String)
deriving DecidableEq

/-- The heroes that can be asked for, and the type of each. -/
def heroes : List (String × String) :=
  [("batman", "Rich"), ("superman", "Powered Immigrant"), ("spiderman", "Mutant-ish"),
   ("hulk", "Radiated Monster"), ("vision", "Powered Android"), ("flash", "Speedster")]

/-- The text given for an option, empty when none is. -/
def given (i : Invocation) (option : String) : String :=
  (i.string? option).getD ""

/-- Replies with a text made from all that was remembered before. -/
def replyWith (make : List Memory → String) : Act Memory :=
  .call fun history => .send (.reply ⟨make history, false⟩)

/-- Answers with what is remembered. -/
def lookUp (make : List Memory → String) : Program Memory :=
  ⟨[replyWith make], .done []⟩

/-- Remembers something, then answers. -/
def remember (memory : Memory) (content : String) : Program Memory :=
  ⟨[.note fun _ => memory, replyWith fun _ => content], .done []⟩

/-- Answers at once, with nothing read. -/
def ping : Action Memory := fun _ => .reply "Pong!"

/-- Answers with the colour, if one is given. -/
def pong : Action Memory := fun i =>
  .reply (match i.string? "color" with
    | some color => color ++ " is a great color! Ping."
    | none => "Poooooong. Why no color?")

/-- Without the blanks at its end. -/
def trimmedEnd (text : String) : String :=
  String.ofList (Text.trimEnd text.toList)

/-- Remembers a colour. -/
def setColor : Action Memory := fun i =>
  let color := given i "color"
  remember (.color color) (trimmedEnd ("Set color to " ++ color ++ "! " ++ given i "msg"))

/-- The colour an entry of the history holds. -/
def color? : Memory → Option String
  | .color value => some value
  | _ => none

/-- The colour remembered last. -/
def getColor : Action Memory := fun _ => lookUp fun history =>
  match (history.filterMap color?).getLast? with
  | some color => "Color is " ++ color ++ "!"
  | none => "Set the color first!"

/-- Remembers a group under its name. -/
def addGroup : Action Memory := fun i =>
  let name := given i "name"
  remember (.group name (given i "description")) ("Added group *" ++ name ++ "*.")

/-- The description of a group, if the entry is about the wanted one. -/
def describesGroup? (wanted : String) : Memory → Option String
  | .group name description => if name = wanted then some description else none
  | _ => none

/-- The description of a group, the first one given to the name. -/
def getGroup : Action Memory := fun i => lookUp fun history =>
  let wanted := given i "name"
  match history.findSome? (describesGroup? wanted) with
  | some description => "Found *" ++ wanted ++ "* with description: " ++ description
  | none => "Unable to find group with that name."

/-- Remembers data about a user. -/
def addUser : Action Memory := fun i =>
  let user := given i "user"
  remember (.user user (given i "data")) ("Added user *" ++ user ++ "*.")

/-- The data of a user, if the entry is about the wanted one. -/
def storedFor? (wanted : String) : Memory → Option String
  | .user id data => if id = wanted then some data else none
  | _ => none

/-- The data of a user, the first that was stored. -/
def getUser : Action Memory := fun i => lookUp fun history =>
  let wanted := given i "user"
  match history.findSome? (storedFor? wanted) with
  | some data => "Found data for *" ++ wanted ++ "*: " ++ data
  | none => "Unable to find data for that user."

/-- The longest text that can be held, in bytes. -/
def maxBytes : Nat := Nat.pow 2 63 - 1

/-- The text so many times over, nothing when it would not fit in memory. -/
def repeated (text : String) (times : Nat) : Option String :=
  if text.isEmpty then some ""
  else if maxBytes < text.utf8ByteSize * times then none
  else some (String.join (List.replicate times text))

/-- Repeats a text, one time when no number is given. -/
def minmax : Action Memory := fun i =>
  let times := ((i.integer? "multiplier").getD 1).toInt.toNat
  match repeated (given i "value") times with
  | some text => .reply ("Value: " ++ text)
  | none => ⟨[], .failed (.panic (some "capacity overflow"))⟩

/-- How far apart two characters are. -/
def distance (a b : Char) : Nat :=
  max a.toNat b.toNat - min a.toNat b.toNat

/-- The heroes, by how close their first letter is to the one that was typed. -/
def closestHeroes (query : String) : List String :=
  let names := heroes.map (·.1)
  match query.toList.head?.bind fun c => (Text.lowercase c).head? with
  | none => names
  | some first =>
    let far := fun (name : String) => (name.toList.head?.map (distance first)).getD first.toNat
    names.mergeSort fun a b => far a ≤ far b

/-- Suggests the heroes closest to what was typed. -/
def completeHero : Completion Memory := fun request =>
  ⟨[], .done ((closestHeroes request.query).map .string)⟩

/-- Says what type a hero is of. -/
def hero : Action Memory := fun i =>
  let name := given i "name"
  let kind := ((heroes.find? fun h => h.1 == name).map (·.2)).getD "Unknown"
  .reply ("Hero " ++ name ++ " is of type: " ++ kind ++ ".")

/-- Documentation in the default language only. -/
def plainDocs (entries : List (String × String)) : Edit (Completion Memory) :=
  .docs (entries.map fun (key, text) => (key, .plain text))

/-- A command, how it is put together and what handles it. -/
structure Declared where
  name : String
  description : String
  edits : List (Edit (Completion Memory))
  terminal : Draft.Terminal (Action Memory)

/-- The commands of the demonstration, in the order they are registered in. -/
def declared : List Declared :=
  [⟨"ping", "Ping.", [], .action ping⟩,
   ⟨"pong", "Reunping.",
    [.argumentWith { (default : ArgumentOptions) with
      text := "[color]", description := some "What is your favorite color?" }],
    .action pong⟩,
   ⟨"subc", "Subcommand test", [.argument "set <color> [msg]", .argument "get"],
    .actions [("set", setColor), ("get", getColor)]⟩,
   ⟨"subg", "Subgroup test",
    Edit.arguments ["group add <name> <description>", "group get <name>",
      "user add <user: user> <data>", "user get <user: user>"]
    ++ [plainDocs [("group", "Manage groups."), ("group add", "Add a group."),
      ("group get", "Look up a group by name."), ("user", "Manage user data."),
      ("user add", "Store data for a user."),
      ("user get", "Look up data stored for a user.")]],
    .actions [("group add", addGroup), ("group get", getGroup), ("user add", addUser),
      ("user get", getUser)]⟩,
   ⟨"minmax", "Testing min and max.",
    [.argument "<value: 27 > l > 3> [multiplier: 1 < x < 3]",
     plainDocs [("value", "Text to repeat."), ("multiplier", "How many times to repeat it.")]],
    .actions [(defaultKey, minmax)]⟩,
   ⟨"hero", "Find hero data.", [.argument "<*name>", .autocomplete "<*name>" completeHero],
    .action hero⟩]

/-- The sealed command, or the first fault of its declaration. -/
def Declared.build (d : Declared) : Checked (Command Memory) :=
  (((Builder.new d.name d.description).edits d.edits).finish d.terminal).2

/-- Adds the demo commands to a registry. -/
def declare (registry : CommandRegistry Memory) : Checked (CommandRegistry Memory) :=
  declared.foldlM (fun registry d => do
    let spec ← d.build
    let (registry, _) ← registry.add spec
    return registry) registry

end SlashCommands.Demo
