import SlashCommands.Document.File
import SlashCommands.Draft

/-!
# Building a command

A builder is a draft and the first fault that an edit of it met. After a fault no further edit is
looked at, and finishing returns that fault.
-/

namespace SlashCommands

/-- One call on a builder. -/
inductive Edit (κ : Type)
  | description (text : String)
  | localize (locale description : String)
  | subgroup (name description : String)
  | subcommand (path description : String)
  | argument (text : String)
  | argumentWith (options : ArgumentOptions)
  | require (requirement : String)
  | channel (reference : String)
  | guild (reference : String)
  | docs (entries : List Doc)
  | docsFile (path : String) (content : FileContent)
  | autocomplete (key : String) (callback : κ)

namespace Edit

variable {κ : Type}

/-- One subcommand for each path, described by the placeholder. -/
def subcommands (paths : List String) : List (Edit κ) :=
  paths.map fun path => subcommand path placeholder

/-- One declaration for each text. -/
def arguments (texts : List String) : List (Edit κ) :=
  texts.map argument

/-- One requirement for each text. -/
def requires (requirements : List String) : List (Edit κ) :=
  requirements.map require

/-- One channel for each reference. -/
def channels (references : List String) : List (Edit κ) :=
  references.map channel

/-- One guild for each reference. -/
def guilds (references : List String) : List (Edit κ) :=
  references.map guild

/-- One callback for every starred argument without one of its own. -/
def autocompleteAll (callback : κ) : Edit κ :=
  autocomplete defaultKey callback

/-- The draft after the edit. -/
def apply (d : Draft κ) : Edit κ → Checked (Draft κ)
  | description text => d.describe text
  | localize locale text => d.localize locale text
  | subgroup name text => d.addSubgroup name text
  | subcommand path text => do
    let path ← Draft.subcommandPath path
    d.addSubcommand path text
  | argument text => do
    let declaration ← Declaration.parse text
    d.declare declaration
  | argumentWith options => do
    let (path, a) ← options.toArgument
    d.declare ⟨path, [a]⟩
  | require requirement => d.require requirement
  | channel reference => d.allowChannel reference
  | guild reference => d.addGuild reference
  | docs entries => .ok { d with docs := d.docs ++ entries }
  | docsFile path content => do
    let entries ← content.readDocs path
    return { d with docs := d.docs ++ entries }
  | autocomplete key callback => d.setCallback key callback

end Edit

/-- A draft and the first fault met, after which the draft stays as it is. -/
structure Builder (κ : Type) where
  draft : Draft κ
  fault : Option Fault

namespace Builder

variable {κ : Type}

/-- A draft without content. Its name is checked at once. -/
def new (name description : String) : Builder κ where
  draft := .new name description
  fault := match Check.slashName name "command" with
    | .ok _ => none
    | .error fault => some fault

/-- Applies an edit, unless a fault came before. -/
def edit (b : Builder κ) (e : Edit κ) : Builder κ :=
  match b.fault with
  | some _ => b
  | none =>
    match e.apply b.draft with
    | .ok draft => { b with draft }
    | .error fault => { b with fault := some fault }

/-- Many edits, in their order. -/
def edits (b : Builder κ) (es : List (Edit κ)) : Builder κ :=
  es.foldl edit b

/-- The sealed command or the first fault, with the names of the starred arguments that nothing
completes. -/
def finish {η : Type} (b : Builder κ) (terminal : Draft.Terminal η) :
    List String × Checked (Spec η κ) :=
  match b.fault with
  | some fault => ([], .error fault)
  | none => b.draft.finish terminal

end Builder

end SlashCommands
