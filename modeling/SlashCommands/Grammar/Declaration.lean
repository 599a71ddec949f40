import SlashCommands.Grammar.Bounds
import SlashCommands.Grammar.Token
import SlashCommands.Path

/-!
# Declarations

A declaration is a path of at most two words and the arguments it adds there, such as `group add
<name> <count: 1 < x < 5> [*tag: red | blue]`. Where the words stand is settled before any argument
is read, so a word in a wrong place is reported even if an argument before it makes no sense.
-/

namespace SlashCommands

/-- A piece of a declaration, classified. -/
inductive Segment
  | subgroup (name : String)
  | subcommand (name : String)
  | argument (argument : Argument)
deriving DecidableEq

/-- What a declaration says: a place in the tree, and arguments to add there. -/
structure Declaration where
  path : Path
  arguments : List Argument
deriving DecidableEq

namespace Declaration

/-- A bracketed token: what stands inside and whether the argument is required. -/
abbrev Bracketed := List Char × Bool

/-- Separates the words from the brackets, in order, and refuses words in wrong places. -/
def arrange (words : List (List Char)) (brackets : List Bracketed) :
    List Token → Except GrammarFault (List (List Char) × List Bracketed)
  | [] => .ok (words, brackets)
  | .word text :: rest =>
    if !brackets.isEmpty then .error (.wordAfterArgument (String.ofList text))
    else if words.length = 2 then .error (.wordTooMany (String.ofList text))
    else arrange (words ++ [text]) brackets rest
  | .required inner :: rest => arrange words (brackets ++ [(inner, true)]) rest
  | .optional inner :: rest => arrange words (brackets ++ [(inner, false)]) rest

/-- The name in front of the colon and the text after it. -/
def splitSpec (inner : List Char) : List Char × List Char :=
  match Text.splitFirst ':' inner with
  | some (name, spec) => (Text.trim name, Text.trim spec)
  | none => (inner, [])

/-- A star in front of the name asks for autocompletion. -/
def splitStar (name : List Char) : List Char × Bool :=
  match name with
  | '*' :: rest => (Text.trim rest, true)
  | _ => (name, false)

/-- An argument with a list of choices, at least two and none of them empty. -/
def readChoices (raw name : String) (spec : List Char) (required : Bool) : Checked Argument :=
  let literals := (Text.splitWhere (· = '|') spec).map Text.trim
  if literals.length < 2 || literals.any List.isEmpty then
    .error (.grammar raw (.choicesTooFew name))
  else
    let (type, choices) := Choice.infer literals
    .ok { Argument.plain name type required with choices }

/-- An argument with a type, which is a text when nothing is said. -/
def readType (name : String) (spec : List Char) (required : Bool) : Checked Argument :=
  let spec := if spec.isEmpty then "string".toList else spec
  match ArgumentType.ofName? spec with
  | some type => .ok (.plain name type required)
  | none => .error (.unknownType (String.ofList spec) (ArgumentType.suggestion? spec))

/-- One argument from the inside of its brackets. Choices take precedence over autocompletion. -/
def readArgument (raw : String) (bracketed : Bracketed) : Checked Argument :=
  let (name, spec) := splitSpec (Text.trim bracketed.1)
  let (name, autocomplete) := splitStar name
  let required := bracketed.2
  let text := String.ofList name
  if name.isEmpty then .error (.grammar raw .emptyName)
  else if spec.contains '|' then readChoices raw text spec required
  else if spec.any fun c => c = '<' || c = '>' then
    match Bounds.read text spec required with
    | .ok argument => .ok { argument with autocomplete }
    | .error reason => .error (.grammar raw reason)
  else (readType text spec required).map fun argument => { argument with autocomplete }

/-- The words of a declaration as subgroup and subcommand. -/
def pathSegments : List (List Char) → List Segment
  | [group, sub] => [.subgroup (String.ofList group), .subcommand (String.ofList sub)]
  | [sub] => [.subcommand (String.ofList sub)]
  | _ => []

/-- The words and brackets of a text, all in places where they may stand. -/
def outline (raw : String) : Checked (List (List Char) × List Bracketed) :=
  let found := (Token.read raw.toList).bind fun tokens =>
    if tokens.isEmpty then .error .nothingToRead else arrange [] [] tokens
  match found with
  | .ok parts => .ok parts
  | .error reason => .error (.grammar raw reason)

/-- The pieces of a declaration, each read on its own. -/
def segments (raw : String) : Checked (List Segment) := do
  let (words, brackets) ← outline raw
  let arguments ← brackets.mapM (readArgument raw)
  return pathSegments words ++ arguments.map Segment.argument

/-- Adds one segment at the end of a declaration. -/
def extend (d : Declaration) : Segment → Declaration
  | .subgroup name => { d with path := { d.path with subgroup := some name } }
  | .subcommand name => { d with path := { d.path with subcommand := some name } }
  | .argument a => { d with arguments := d.arguments ++ [a] }

/-- Reads a declaration. -/
def parse (raw : String) : Checked Declaration := do
  let found ← segments raw
  return found.foldl extend ⟨.root, []⟩

/-- A declaration that has to introduce exactly one argument. -/
def parseSingle (raw : String) : Checked (Path × Argument) := do
  let d ← parse raw
  match d.arguments with
  | [a] => .ok (d.path, a)
  | found => .error (.grammar raw (.notOneArgument found.length))

/-- The declaration as written. -/
def render (d : Declaration) : String :=
  " ".intercalate (d.path.subgroup.toList ++ d.path.subcommand.toList
    ++ d.arguments.map Argument.render)

end Declaration

/-- A piece as it is written. -/
def Segment.render : Segment → String
  | subgroup name => name
  | subcommand name => name
  | argument a => a.render

end SlashCommands
