import SlashCommands.Document
import SlashCommands.Platform.Locale
import SlashCommands.Reference

/-!
# Documentation entries

A documentation entry describes what its reference points at, with one text or with texts by locale
and a default one. Entries may be given before what they describe; they are applied when the command
is sealed. A documentation file is a map of entries, taken in the order of their references.
-/

namespace SlashCommands

/-- What the documentation gives for one key: a text, or one for each locale. -/
inductive DocEntry
  | plain (text : String)
  | localized (texts : SortedMap String String)
deriving DecidableEq, Inhabited

/-- A reference and what is said of it. -/
abbrev Doc := String × DocEntry

namespace DocEntry

/-- One text of a locale map. -/
def readLocale (what : String) (entry : String × Document) : Checked (String × String) :=
  match entry.2 with
  | .leaf ⟨some text, _, true, _, _⟩ => .ok (entry.1, text)
  | _ => .error (.wrongKind (what ++ " locale '" ++ entry.1 ++ "'") "a string")

/-- One entry of a documentation file. -/
def read (source : String) (entry : String × Document) : Checked Doc :=
  let what := source ++ " entry '" ++ entry.1 ++ "'"
  match entry.2 with
  | .leaf ⟨some text, _, true, _, _⟩ => .ok (entry.1, .plain text)
  | .map fields => do
    let texts ← (SortedMap.ofList fields).entries.mapM (readLocale what)
    return (entry.1, .localized (.ofList texts))
  | _ => .error (.wrongKind what "a string or a locale map")

/-- The entries of a documentation file. -/
def readAll (source : String) : Document → Checked (List Doc)
  | .map fields => (SortedMap.ofList fields).entries.mapM (read source)
  | _ => .error (.wrongKind source "an object")

/-- The default text and the texts by locale, all of them checked. -/
def split (key : String) : DocEntry → Checked (Option String × List (String × String))
  | plain text => do
    Check.description text ("docs entry '" ++ key ++ "'")
    return (some text, [])
  | localized texts => do
    let what := "docs entry '" ++ key ++ "'"
    let default := texts.find? defaultKey
    match default with
    | some text => Check.description text what
    | none => .ok ()
    let locales := (texts.erase defaultKey).entries
    locales.forM fun (locale, text) => do
      Check.known (isLocale locale) "locale" locale
      Check.description text (what ++ " (" ++ locale ++ ")")
    return (default, locales)

end DocEntry

/-- Replaces a description and adds localizations. -/
structure Wording where
  description : Option String
  locales : List (String × String)
deriving DecidableEq

namespace Wording

/-- The new description, or the old one where only translations are given. -/
def describe (w : Wording) (old : String) : String :=
  w.description.getD old

/-- The old translations with the new ones among them. -/
def localize (w : Wording) (old : Localizations) : Localizations :=
  old.insertAll w.locales

/-- Words an argument. -/
def onArgument (w : Wording) (a : Argument) : Argument :=
  { a with description := w.describe a.description, localizations := w.localize a.localizations }

/-- Words a subcommand. -/
def onSubcommand (w : Wording) (s : Subcommand) : Subcommand :=
  { s with description := w.describe s.description, localizations := w.localize s.localizations }

/-- Words a subgroup. -/
def onSubgroup (w : Wording) (g : Subgroup) : Subgroup :=
  { g with description := w.describe g.description, localizations := w.localize g.localizations }

/-- Changes the first argument of a name. -/
def onNamed (w : Wording) (name : String) (arguments : List Argument) : List Argument :=
  (changeFirst? (fun a => a.name == name) (fun a => some (w.onArgument a)) arguments).getD arguments

/-- Describes a node or an argument of the tree. -/
def onTree (w : Wording) (t : Tree) (key : String) : Target → Checked Tree
  | .command => .ok t
  | .subgroup name => found (t.changeSubgroup? name fun g => some (w.onSubgroup g)) "subgroup" name
  | .subcommand path => found (t.changeSubcommand? path w.onSubcommand) "subcommand" path.text
  | .argument path name =>
    if ((t.arguments? path).getD []).any fun a => a.name == name then
      found (t.changeArguments? path (w.onNamed name)) "argument" key
    else .error (.notFound "argument" key)
where
  found (changed : Option Tree) (what reference : String) : Checked Tree :=
    match changed with
    | some t => .ok t
    | none => .error (.notFound what reference)

end Wording

end SlashCommands
