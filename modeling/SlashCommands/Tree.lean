import SlashCommands.Argument
import SlashCommands.Path

/-!
# The tree of a command

A command has arguments of its own or children: subcommands and subgroups of subcommands, in the
order they were declared. The tree is looked at in five ways, which agree: the list of `nodes`, the
arguments at a path, whether a path is there, and changing the arguments at a path.
-/

namespace SlashCommands

/-- A subcommand and the arguments it takes. -/
structure Subcommand where
  name : String
  description : String
  localizations : Localizations
  arguments : List Argument
deriving DecidableEq, Inhabited

/-- A subgroup and its subcommands. -/
structure Subgroup where
  name : String
  description : String
  localizations : Localizations
  subcommands : List Subcommand
deriving DecidableEq, Inhabited

/-- A subcommand without arguments. -/
def Subcommand.new (name description : String) : Subcommand :=
  ⟨name, description, .empty, []⟩

/-- The argument of a name. -/
def Subcommand.argument? (s : Subcommand) (name : String) : Option Argument :=
  s.arguments.find? fun a => a.name == name

/-- A subgroup without subcommands. -/
def Subgroup.new (name description : String) : Subgroup :=
  ⟨name, description, .empty, []⟩

/-- The subcommand of a name. -/
def Subgroup.subcommand? (g : Subgroup) (name : String) : Option Subcommand :=
  g.subcommands.find? fun s => s.name == name

/-- What stands directly under a command. -/
inductive Child
  | subcommand (node : Subcommand)
  | subgroup (node : Subgroup)
deriving DecidableEq, Inhabited

namespace Child

/-- The name of a child, of either kind. -/
def name : Child → String
  | subcommand s => s.name
  | subgroup g => g.name

/-- The child as a subcommand. -/
def subcommand? : Child → Option Subcommand
  | subcommand s => some s
  | subgroup _ => none

/-- The child as a subgroup. -/
def subgroup? : Child → Option Subgroup
  | subcommand _ => none
  | subgroup g => some g

/-- Whether it is a subcommand of the name. -/
def isSubcommand (name : String) (child : Child) : Bool :=
  child.subcommand?.any fun s => s.name == name

/-- Whether it is a subgroup of the name. -/
def isSubgroup (name : String) (child : Child) : Bool :=
  child.subgroup?.any fun g => g.name == name

end Child

/-- What stands under a command: its own arguments, or its children. -/
structure Tree where
  arguments : List Argument
  children : List Child
deriving DecidableEq, Inhabited

/-- Changes the first element that passes a test, if the change is defined for it. -/
def changeFirst? {α : Type} (test : α → Bool) (change : α → Option α) : List α → Option (List α)
  | [] => none
  | x :: xs =>
    if test x then (change x).map (· :: xs) else (changeFirst? test change xs).map (x :: ·)

namespace Tree

/-- A tree with nothing under the command. -/
def empty : Tree :=
  ⟨[], []⟩

/-- The first subgroup of a name. -/
def subgroup? (t : Tree) (name : String) : Option Subgroup :=
  t.children.findSome? fun child => child.subgroup?.filter fun g => g.name == name

/-- The first subcommand of a name directly under the command. -/
def subcommand? (t : Tree) (name : String) : Option Subcommand :=
  t.children.findSome? fun child => child.subcommand?.filter fun s => s.name == name

/-- Whether a child has the name, of either kind. -/
def hasChild (t : Tree) (name : String) : Bool :=
  t.children.any fun child => child.name == name

/-- The subcommand in a subgroup. -/
def nested? (t : Tree) (group sub : String) : Option Subcommand :=
  (t.subgroup? group).bind fun g => g.subcommand? sub

/-- Whether the path is the root, a declared subcommand or a declared subgroup. -/
def contains (t : Tree) (p : Path) : Bool :=
  match p.subgroup, p.subcommand with
  | none, none => true
  | some group, none => (t.subgroup? group).isSome
  | none, some sub => (t.subcommand? sub).isSome
  | some group, some sub => (t.nested? group sub).isSome

/-- The arguments at a path; a whole subgroup has none. -/
def arguments? (t : Tree) (p : Path) : Option (List Argument) :=
  match p.subgroup, p.subcommand with
  | none, none => some t.arguments
  | some _, none => none
  | none, some sub => (t.subcommand? sub).map (·.arguments)
  | some group, some sub => (t.nested? group sub).map (·.arguments)

/-- The tree with a change in the first subgroup of a name, if the change is defined for it. -/
def changeSubgroup? (t : Tree) (name : String) (change : Subgroup → Option Subgroup) :
    Option Tree :=
  (changeFirst? (Child.isSubgroup name)
    (fun child => (child.subgroup?.bind change).map .subgroup) t.children).map
      fun children => { t with children }

/-- The tree with a change in the subcommand at a path. -/
def changeSubcommand? (t : Tree) (p : Path) (change : Subcommand → Subcommand) : Option Tree :=
  match p.subgroup, p.subcommand with
  | _, none => none
  | none, some sub =>
    (changeFirst? (Child.isSubcommand sub)
      (fun child => child.subcommand?.map fun s => .subcommand (change s)) t.children).map
        fun children => { t with children }
  | some group, some sub =>
    t.changeSubgroup? group fun g =>
      (changeFirst? (fun s => s.name == sub) (fun s => some (change s)) g.subcommands).map
        fun subcommands => { g with subcommands }

/-- The tree with other arguments at a path, if arguments can stand there. -/
def changeArguments? (t : Tree) (p : Path) (change : List Argument → List Argument) :
    Option Tree :=
  if p.isRoot then some { t with arguments := change t.arguments }
  else t.changeSubcommand? p fun s => { s with arguments := change s.arguments }

/-- The places of a child where arguments can stand. -/
def childNodes : Child → List (Path × List Argument)
  | .subcommand s => [(.ofSubcommand s.name, s.arguments)]
  | .subgroup g => g.subcommands.map fun s => (.nested g.name s.name, s.arguments)

/-- Every place where arguments can stand, with the arguments there, the root first. -/
def nodes (t : Tree) : List (Path × List Argument) :=
  (.root, t.arguments) :: t.children.flatMap childNodes

/-- No required argument follows an optional one. -/
def checkOrder (arguments : List Argument) : Checked Unit :=
  match arguments.dropWhile (·.required) with
  | [] => .ok ()
  | first :: rest =>
    match rest.find? (·.required) with
    | none => .ok ()
    | some late => .error (.rule ("required argument '" ++ late.name
        ++ "' cannot follow optional argument '" ++ first.name ++ "'"))

/-- A subgroup holds no more subcommands than the platform allows. -/
def checkChild : Child → Checked Unit
  | .subgroup g =>
    Check.count g.subcommands.length ("subcommand count of '" ++ g.name ++ "'") 0 Check.maxOptions
  | .subcommand _ => .ok ()

/-- A place holds no more arguments than the platform allows, the required ones first. -/
def checkNode (node : Path × List Argument) : Checked Unit := do
  Check.count node.2.length ("argument count of '" ++ node.1.text ++ "'") 0 Check.maxOptions
  checkOrder node.2

/-- The rules of the platform that concern more than one node. -/
def checkStructure (t : Tree) : Checked Unit := do
  Check.rule (!t.arguments.isEmpty && !t.children.isEmpty)
    "a command with subcommands or subgroups cannot take root-level arguments"
  Check.count t.children.length "subcommand and subgroup count" 0 Check.maxOptions
  t.children.forM checkChild
  t.nodes.forM checkNode

end Tree

end SlashCommands
