import SlashCommands.Documentation
import SlashCommands.Grammar.Declaration
import SlashCommands.Requirement
import SlashCommands.Spec

/-!
# Drafts

A draft is a command that is being put together. Every edit checks its input before it changes the
draft; sealing applies the documentation, checks the whole once more and compiles the payload.
-/

namespace SlashCommands

/-- An argument with properties beyond its declaration text. -/
structure ArgumentOptions where
  /-- A declaration with exactly one argument. -/
  text : String
  description : Option String
  /-- These decide the type where the text leaves it a string. -/
  choices : Option (List Choice)
  min : Option Number
  max : Option Number
  minLength : Option UInt16
  maxLength : Option UInt16
  autocomplete : Option Bool
deriving Inhabited

namespace ArgumentOptions

/-- The common type of two kinds of choices: integers and doubles are doubles together. -/
def join? (a b : ArgumentType) : Option ArgumentType :=
  if a = b then some a
  else match a, b with
    | .integer, .float | .float, .integer => some .float
    | _, _ => none

/-- The common type of choices that follow ones of type `current`. -/
def choiceTypeFrom (subject : String) (current : ArgumentType) :
    List Choice → Checked ArgumentType
  | [] => .ok current
  | c :: cs =>
    match join? current c.type with
    | some type => choiceTypeFrom subject type cs
    | none => .error (.wrongKind ("choice '" ++ c.text ++ "' of argument '" ++ subject ++ "'")
        ("a " ++ current.keyword ++ " literal"))

/-- The common type of the choices; without any, a string. -/
def choiceType (subject : String) : List Choice → Checked ArgumentType
  | [] => .ok .string
  | c :: cs => choiceTypeFrom subject c.type cs

/-- Sets the description, if one is given. -/
def withDescription (o : ArgumentOptions) (a : Argument) : Checked Argument :=
  match o.description with
  | none => .ok a
  | some description => do
    Check.description description ("argument '" ++ a.name ++ "'")
    return { a with description }

/-- Sets the choices, if some are given. They decide the type of an argument that was a text. -/
def withChoices (o : ArgumentOptions) (a : Argument) : Checked Argument :=
  match o.choices with
  | none => .ok a
  | some choices => do
    Check.exclusive true (o.autocomplete == some true) a.name "choices" "autocomplete"
    let type ← if a.type = .string then choiceType a.name choices else .ok a.type
    return { a with autocomplete := false, type, choices }

/-- The path and the argument that the options describe. -/
def toArgument (o : ArgumentOptions) : Checked (Path × Argument) := do
  let (path, a) ← Declaration.parseSingle o.text
  let a ← o.withDescription a
  let a ← o.withChoices a
  let a := { a with
    min := o.min <|> a.min
    max := o.max <|> a.max
    minLength := o.minLength <|> a.minLength
    maxLength := o.maxLength <|> a.maxLength
    autocomplete := o.autocomplete.getD a.autocomplete }
  return (path, a.coerceLiterals)

end ArgumentOptions

/-- A command while it is put together. Documentation and callbacks wait for the whole tree. -/
structure Draft (κ : Type) where
  name : String
  description : String
  localizations : Localizations
  tree : Tree
  docs : List Doc
  callbacks : List (String × κ)
  callbackFallback : Option κ
  permissions : SortedSet Permission
  roles : SortedSet String
  channels : SortedSet String
  guilds : SortedSet String

namespace Draft

variable {κ : Type}

/-- A draft with a name and a description only. -/
def new (name description : String) : Draft κ where
  name := name
  description := description
  localizations := .empty
  tree := .empty
  docs := []
  callbacks := []
  callbackFallback := none
  permissions := .empty
  roles := .empty
  channels := .empty
  guilds := .empty

/-- Children cannot join a command that has arguments of its own. -/
def forbidRootArguments (d : Draft κ) (child : String) : Checked Unit :=
  Check.rule (!d.tree.arguments.isEmpty) ("cannot add '" ++ child ++ "' to '" ++ d.name
    ++ "': a command with root-level arguments cannot have subcommands or subgroups")

/-- Puts a child behind the others. -/
def addChild (d : Draft κ) (child : Child) : Draft κ :=
  { d with tree := { d.tree with children := d.tree.children ++ [child] } }

/-- Adds a subgroup. The name is still free and no argument stands at the root. -/
def addSubgroup (d : Draft κ) (name description : String) : Checked (Draft κ) := do
  Check.slashName name "subgroup"
  Check.description description ("subgroup '" ++ name ++ "'")
  Check.notDuplicate (d.tree.hasChild name) "subgroup" name
  d.forbidRootArguments name
  return d.addChild (.subgroup (.new name description))

/-- The draft with the subgroup declared, as a bare one if it was not. -/
def ensureSubgroup (d : Draft κ) (group sub : String) : Checked (Draft κ) :=
  if (d.tree.subgroup? group).isSome then .ok d
  else do
    Check.rule (d.tree.subcommand? group).isSome
      ("'" ++ group ++ "' is a subcommand and cannot contain subcommand '" ++ sub ++ "'")
    Check.slashName group "subgroup"
    d.forbidRootArguments group
    return d.addChild (.subgroup (.new group placeholder))

/-- Adds a subcommand to its subgroup, which is made if it is missing. -/
def insertNested (d : Draft κ) (group : String) (path : Path) (node : Subcommand) :
    Checked (Draft κ) := do
  let d ← d.ensureSubgroup group node.name
  let g ← match d.tree.subgroup? group with
    | some g => .ok g
    | none => .error (.notFound "subgroup" group)
  Check.notDuplicate (g.subcommand? node.name).isSome "subcommand" path.text
  match d.tree.changeSubgroup? group fun g =>
      some { g with subcommands := g.subcommands ++ [node] } with
  | some tree => return { d with tree }
  | none => .error (.notFound "subgroup" group)

/-- Adds a subcommand to the command, or to the subgroup that the path names. -/
def insertSubcommand (d : Draft κ) (path : Path) (node : Subcommand) : Checked (Draft κ) := do
  Check.slashName node.name "subcommand"
  match path.subgroup with
  | none =>
    Check.notDuplicate (d.tree.hasChild node.name) "subcommand" node.name
    d.forbidRootArguments node.name
    return d.addChild (.subcommand node)
  | some group => d.insertNested group path node

/-- Adds a subcommand without arguments. -/
def addSubcommand (d : Draft κ) (path : Path) (description : String) : Checked (Draft κ) := do
  let name ← Check.present path.subcommand "subcommand name"
  Check.description description ("subcommand '" ++ path.text ++ "'")
  d.insertSubcommand path (.new name description)

/-- Adds a subcommand that nobody has described yet. -/
def addPlaceholder (d : Draft κ) (path : Path) : Checked (Draft κ) := do
  let name ← Check.present path.subcommand "subcommand name"
  d.insertSubcommand path (.new name placeholder)

/-- No required argument may follow an optional one. -/
def checkFollows (arguments : List Argument) (a : Argument) : Checked Unit :=
  match arguments.getLast? with
  | some last =>
    Check.rule (a.required && !last.required) ("required argument '" ++ a.name
      ++ "' cannot follow optional argument '" ++ last.name ++ "'")
  | none => .ok ()

/-- Adds an argument at a place of the tree, behind those it has. -/
def addArgument (d : Draft κ) (path : Path) (a : Argument) : Checked (Draft κ) := do
  a.check
  let arguments ← match d.tree.arguments? path with
    | some arguments => .ok arguments
    | none => .error (.notFound "subcommand" path.text)
  let qualified := Text.trimmed (path.text ++ " " ++ a.name)
  Check.notDuplicate (arguments.any fun b => b.name == a.name) "argument" qualified
  checkFollows arguments a
  Check.count (arguments.length + 1) ("argument count of '" ++ qualified ++ "'") 1
    Check.maxOptions
  match d.tree.changeArguments? path (· ++ [a]) with
  | some tree => return { d with tree }
  | none => .error (.notFound "subcommand" path.text)

/-- The draft with the path declared, so that arguments can be added there. -/
def ensurePath (d : Draft κ) (path : Path) : Checked (Draft κ) :=
  if path.isRoot then do
    Check.rule (!d.tree.children.isEmpty) ("'" ++ d.name
      ++ "' has subcommands or subgroups and cannot take root-level arguments")
    return d
  else if d.tree.contains path then .ok d
  else d.addPlaceholder path

/-- A declaration without arguments declares its path, one with arguments adds them there. -/
def declare (d : Draft κ) (declaration : Declaration) : Checked (Draft κ) :=
  if declaration.arguments.isEmpty then d.addPlaceholder declaration.path
  else do
    let d ← d.ensurePath declaration.path
    declaration.arguments.foldlM (fun d a => d.addArgument declaration.path a) d

/-- Asks for a permission or a role. -/
def require (d : Draft κ) (raw : String) : Checked (Draft κ) := do
  match ← Requirement.parse raw with
  | .permission p => return { d with permissions := d.permissions.insert p () }
  | .role reference => return { d with roles := d.roles.insert reference () }

/-- Describes the command in one locale. -/
def localize (d : Draft κ) (locale description : String) : Checked (Draft κ) := do
  Check.known (isLocale locale) "locale" locale
  Check.description description (locale ++ " description of '" ++ d.name ++ "'")
  return { d with localizations := d.localizations.insert locale description }

/-- Describes the command. -/
def describe (d : Draft κ) (description : String) : Checked (Draft κ) := do
  Check.description description ("command '" ++ d.name ++ "'")
  return { d with description }

/-- Allows a channel, by its id or its name. -/
def allowChannel (d : Draft κ) (channel : String) : Checked (Draft κ) := do
  Check.notBlank channel "channel"
  return { d with channels := d.channels.insert (Text.trimmed channel) () }

/-- Names a guild the command belongs to, by its id or its name. -/
def addGuild (d : Draft κ) (guild : String) : Checked (Draft κ) := do
  Check.notBlank guild "guild"
  return { d with guilds := d.guilds.insert (Text.trimmed guild) () }

/-- Keeps a callback under its key, or as the one for every other argument. -/
def setCallback (d : Draft κ) (key : String) (callback : κ) : Checked (Draft κ) := do
  Check.notBlank key "autocomplete key"
  if Reference.isDefault key then
    Check.notDuplicate d.callbackFallback.isSome "autocomplete callback" defaultKey
    return { d with callbackFallback := some callback }
  else return { d with callbacks := d.callbacks ++ [(key, callback)] }

/-- The path that a subcommand is declared by: one word or two. -/
def subcommandPath (raw : String) : Checked Path :=
  match Text.wordsOf raw with
  | [sub] => .ok (.ofSubcommand sub)
  | [group, sub] => .ok (.nested group sub)
  | _ => .error (.grammar raw .pathWords)

/-- Applies one documentation entry. -/
def applyDoc (d : Draft κ) (doc : Doc) : Checked (Draft κ) := do
  let target ← Reference.resolve d.tree doc.1
  let (description, locales) ← doc.2.split doc.1
  let wording : Wording := ⟨description, locales⟩
  match target with
  | .command =>
    return { d with
      description := wording.describe d.description
      localizations := wording.localize d.localizations }
  | target =>
    let tree ← wording.onTree d.tree doc.1 target
    return { d with tree }

/-- Applies the documentation entries in the order they were given. -/
def applyDocs (d : Draft κ) : Checked (Draft κ) :=
  d.docs.foldlM applyDoc { d with docs := [] }

/-- Whether the argument at a path asks for autocompletion. -/
def isStarred (t : Tree) (slot : Slot) : Bool :=
  (((t.arguments? slot.1).getD []).find? fun a => a.name == slot.2).any (·.autocomplete)

/-- Stores a callback under the argument that its key names. -/
def addCallback (t : Tree) (stored : List (Slot × κ)) (entry : String × κ) :
    Checked (List (Slot × κ)) := do
  let (key, callback) := entry
  match ← Reference.resolve t key with
  | .argument path name =>
    Check.rule (!isStarred t (path, name))
      ("argument '" ++ key ++ "' must be declared with '*' to take an autocomplete callback")
    Check.notDuplicate (stored.any fun c => c.1 == (path, name)) "autocomplete callback" key
    return stored ++ [((path, name), callback)]
  | _ => .error (.rule ("autocomplete key '" ++ key ++ "' must name an argument"))

/-- The callbacks under the arguments they are for, in the order they were set. -/
def resolveCallbacks (d : Draft κ) : Checked (List (Slot × κ)) :=
  d.callbacks.foldlM (addCallback d.tree) []

/-- The starred arguments without a callback of their own, where no callback serves all of them. -/
def missingCallbacks (d : Draft κ) (stored : List (Slot × κ)) : List String :=
  if d.callbackFallback.isSome then []
  else d.tree.nodes.flatMap fun node =>
    (node.2.filter fun a =>
      a.autocomplete && !(stored.any fun c => c.1 == (node.1, a.name))).map (·.name)

/-- The path that the key of a route names: a subgroup, a subcommand, or a subcommand in a subgroup.
-/
def routePath (t : Tree) (key : String) : Checked Path :=
  match Reference.words key with
  | [one] => .ok (if (t.subgroup? one).isSome then .ofGroup one else .ofSubcommand one)
  | [group, sub] => .ok (.nested group sub)
  | _ => .error (.notFound "handler route" key)

/-- Puts one handler into the table, at the place its key names. -/
def addRoute {η : Type} (t : Tree) (table : RouteTable η) (entry : String × η) :
    Checked (RouteTable η) := do
  let (key, handler) := entry
  if Reference.isDefault key then
    Check.notDuplicate table.fallback.isSome "handler route" defaultKey
    return { table with fallback := some handler }
  else
    let path ← routePath t key
    Check.known (t.contains path) "handler route" key
    Check.notDuplicate (table.contains path) "handler route" key
    return { table with routes := table.routes ++ [(path, handler)] }

/-- How a command is to be handled: by one handler, or by handlers under keys. -/
inductive Terminal (η : Type)
  | action (handler : η)
  | actions (routes : List (String × η))

/-- The handler of the command, with every route at a place of the tree. -/
def resolveHandler {η : Type} (t : Tree) : Terminal η → Checked (Handler η)
  | .action handler => .ok (.single handler)
  | .actions routes => do
    let table ← routes.foldlM (addRoute t) RouteTable.empty
    return .routes table

/-- The documented draft and its resolved callbacks. -/
def prepare (d : Draft κ) : Checked (Draft κ × List (Slot × κ)) := do
  let d ← d.applyDocs
  Check.description d.description ("command '" ++ d.name ++ "'")
  d.tree.checkStructure
  d.tree.nodes.forM fun node => node.2.forM Argument.check
  let callbacks ← d.resolveCallbacks
  return (d, callbacks)

/-- The sealed command, with what its callbacks and its handler came to. -/
def toSpec {η : Type} (d : Draft κ) (callbacks : List (Slot × κ)) (handler : Handler η) :
    Spec η κ where
  name := d.name
  description := d.description
  localizations := d.localizations
  tree := d.tree
  callbacks := callbacks
  callbackFallback := d.callbackFallback
  permissions := d.permissions
  roles := d.roles
  channels := d.channels
  guilds := d.guilds
  handler := handler
  payload := .compile d.name d.description d.localizations d.tree d.permissions.toList

/-- The sealed command, and the names of the starred arguments that nothing completes. These are
known as soon as the callbacks are, also if the handlers turn out to be wrong. -/
def finish {η : Type} (d : Draft κ) (terminal : Terminal η) : List String × Checked (Spec η κ) :=
  match d.prepare with
  | .error fault => ([], .error fault)
  | .ok (d, callbacks) =>
    (d.missingCallbacks callbacks,
      (resolveHandler d.tree terminal).map fun handler => d.toSpec callbacks handler)

end Draft

end SlashCommands
