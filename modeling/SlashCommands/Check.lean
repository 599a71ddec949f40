import SlashCommands.Fault
import SlashCommands.Literal

/-!
# Checks

The preconditions of building a command. A check either passes or names the fault it found; none of
them changes anything.
-/

namespace SlashCommands

/-- What a check or an edit comes to: a value, or the fault that stopped it. -/
abbrev Checked := Except Fault

namespace Check

/-- The most characters in a name. -/
def maxName : Nat := 32

/-- The most characters in a description. -/
def maxDescription : Nat := 100

/-- The most choices of an argument. -/
def maxChoices : Nat := 25

/-- The most characters in a choice. -/
def maxChoice : Nat := 100

/-- The most options of one level of a command. -/
def maxOptions : Nat := 25

/-- The greatest length that can be asked of a text. -/
def maxLength : Nat := 6000

/-- What must be given. -/
def present {α : Type} (value : Option α) (what : String) : Checked α :=
  match value with
  | some v => .ok v
  | none => .error (.missing what)

/-- A text with more in it than blanks. -/
def notBlank (text what : String) : Checked Unit :=
  if Text.isBlankText text then .error (.missing what) else .ok ()

/-- What has not been given before. -/
def notDuplicate (isPresent : Bool) (what name : String) : Checked Unit :=
  if isPresent then .error (.duplicate what name) else .ok ()

/-- Not both of two settings that contradict each other. -/
def exclusive (firstSet secondSet : Bool) (subject first second : String) : Checked Unit :=
  if firstSet && secondSet then .error (.exclusive subject first second) else .ok ()

/-- Both ends belong to the range. What is no number is neither below nor above. -/
def range (value : Binary64) (what : String) (minimum maximum : Binary64) : Checked Unit :=
  if value.lt minimum then .error (.belowMinimum what value minimum)
  else if maximum.lt value then .error (.aboveMaximum what value maximum)
  else .ok ()

/-- `range` for a number of things. -/
def count (value : Nat) (what : String) (minimum maximum : Nat) : Checked Unit :=
  if value < minimum then .error (.belowMinimum what (.ofNat value) (.ofNat minimum))
  else if maximum < value then .error (.aboveMaximum what (.ofNat value) (.ofNat maximum))
  else .ok ()

/-- Fails with the text when the rule is violated. -/
def rule (violated : Bool) (text : String) : Checked Unit :=
  if violated then .error (.rule text) else .ok ()

/-- A reference to something that is there. -/
def known (found : Bool) (what reference : String) : Checked Unit :=
  if found then .ok () else .error (.notFound what reference)

/-- The characters of names: letters, numbers, the dash, the underscore and two whole scripts. -/
def isNameChar (c : Char) : Bool :=
  c = '-' || c = '_' || Text.isLetter c || Text.isNumber c || Text.isIndicOrThai c

/-- As many name characters as the platform allows, and at least one. -/
def isNameText (cs : List Char) : Bool :=
  0 < cs.length && cs.length ≤ maxName && cs.all isNameChar

/-- The rule for names of commands, subgroups, subcommands and arguments. Letters without case pass.
-/
def slashName (name what : String) : Checked Unit :=
  if !isNameText name.toList then .error (.badName what name .badCharacters)
  else if name.toList.any Text.isUppercase then .error (.badName what name .notLowercase)
  else .ok ()

/-- A description within the platform's limit, which is not empty. -/
def description (text what : String) : Checked Unit :=
  count text.length (what ++ " description length") 1 maxDescription

/-- As many choices as the platform allows, at least one, each within its own limit. -/
def choices (values : List Choice) (subject : String) : Checked Unit := do
  count values.length (subject ++ " choice count") 1 maxChoices
  values.forM fun value =>
    count value.text.length (subject ++ " choice '" ++ value.text ++ "' length") 1 maxChoice

end Check

end SlashCommands
