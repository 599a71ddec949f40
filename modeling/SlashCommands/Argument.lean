import SlashCommands.Check
import SlashCommands.Data.SortedMap

/-!
# Arguments

An argument is one input slot of a command. `check` holds it against the limits of the platform, in
a fixed order, so the first fault is always the same one; `render` writes it back in brackets.
-/

namespace SlashCommands

/-- Descriptions by locale. -/
abbrev Localizations := SortedMap String String

/-- The description of whatever was never described. -/
def placeholder : String := "No description provided."

/-- One input slot: what may be given there and how the slot is described. -/
structure Argument where
  name : String
  type : ArgumentType
  required : Bool
  autocomplete : Bool
  /-- Empty when any input is accepted. -/
  choices : List Choice
  min : Option Number
  max : Option Number
  minLength : Option UInt16
  maxLength : Option UInt16
  description : String
  localizations : Localizations
deriving DecidableEq, Inhabited

namespace Argument

/-- An argument with nothing but a name, a type and whether it must be given. -/
def plain (name : String) (type : ArgumentType) (required : Bool) : Argument where
  name := name
  type := type
  required := required
  autocomplete := false
  choices := []
  min := none
  max := none
  minLength := none
  maxLength := none
  description := placeholder
  localizations := .empty

/-- Whether only listed values are accepted. -/
def hasChoices (a : Argument) : Bool :=
  !a.choices.isEmpty

/-- Whether a least or a greatest value is set. -/
def hasBounds (a : Argument) : Bool :=
  a.min.isSome || a.max.isSome

/-- Whether a least or a greatest length is set. -/
def hasLength (a : Argument) : Bool :=
  a.minLength.isSome || a.maxLength.isSome

/-- Bounds and choices as literals of the argument's type. -/
def coerceLiterals (a : Argument) : Argument :=
  { a with
    min := a.min.map (Number.coerce a.type)
    max := a.max.map (Number.coerce a.type)
    choices := a.choices.map (Choice.coerce a.type) }

/-- Choices only where the type takes them, within the platform's limits and all of that type. -/
def checkChoices (a : Argument) : Checked Unit := do
  Check.rule (!a.type.takesChoices)
    ("argument '" ++ a.name ++ "' of type " ++ a.type.keyword ++ " cannot have choices")
  Check.choices a.choices a.name
  match a.choices.find? fun c => !c.fits a.type with
  | some bad => .error (.wrongKind ("choice '" ++ bad.text ++ "' of argument '" ++ a.name ++ "'")
      ("a " ++ a.type.keyword ++ " literal"))
  | none => .ok ()

/-- Bounds only on numbers, in order as doubles, and integers on an integer argument. -/
def checkBounds (a : Argument) : Checked Unit := do
  Check.rule (a.hasBounds && !a.type.isNumeric)
    ("min/max can only be set on numeric arguments, '" ++ a.name ++ "' is " ++ a.type.keyword)
  match a.min, a.max with
  | some min, some max =>
    Check.range max.toBinary64 (a.name ++ " max") min.toBinary64 .greatest
  | _, _ => .ok ()
  Check.rule (a.type == .integer && (a.min.any (!·.isInteger) || a.max.any (!·.isInteger)))
    ("integer argument '" ++ a.name ++ "' needs integer bounds")

/-- One bound of the length, under the name the platform has for it. -/
def checkLengthBound (a : Argument) (label : String) (bound : Option UInt16) : Checked Unit :=
  match bound with
  | some n => Check.count n.toNat (a.name ++ " " ++ label) 0 Check.maxLength
  | none => .ok ()

/-- Lengths only on texts, each within the platform's limit and the least no more than the greatest.
-/
def checkLengths (a : Argument) : Checked Unit := do
  Check.rule (a.hasLength && a.type != .string)
    ("min_length/max_length can only be set on string arguments, '" ++ a.name ++ "' is "
      ++ a.type.keyword)
  a.checkLengthBound "min_length" a.minLength
  a.checkLengthBound "max_length" a.maxLength
  match a.minLength, a.maxLength with
  | some min, some max =>
    Check.count max.toNat (a.name ++ " max_length") min.toNat Check.maxLength
  | _, _ => .ok ()

/-- Holds the argument against the limits of the platform. -/
def check (a : Argument) : Checked Unit := do
  Check.slashName a.name "argument"
  Check.description a.description ("argument '" ++ a.name ++ "'")
  Check.exclusive a.hasChoices a.autocomplete a.name "choices" "autocomplete"
  Check.exclusive a.hasChoices a.hasBounds a.name "choices" "min/max"
  Check.exclusive a.hasChoices a.hasLength a.name "choices" "min_length/max_length"
  if a.hasChoices then a.checkChoices
  a.checkBounds
  a.checkLengths

/-- A choice as written in a list; a whole double keeps its decimal place, so that it reads back as
a double. -/
def choiceText : Choice → String
  | .float value => if value.isWhole then value.wholeText else value.text
  | other => other.text

/-- A bound as written in an expression of the type. -/
def boundText (type : ArgumentType) : Number → String
  | .float value => if value.isWhole then value.wholeText else value.text
  | .int value => if type = .float then int64Text value ++ ".0" else int64Text value

/-- The measured name with the bounds that are set, a range written as one chain. -/
def boundExpression (measure : String) : Option String → Option String → String
  | some min, some max => min ++ " <= " ++ measure ++ " <= " ++ max
  | some min, none => measure ++ " >= " ++ min
  | none, some max => measure ++ " <= " ++ max
  | none, none => measure

/-- A bound of a length in digits. -/
def lengthText (bound : UInt16) : String :=
  toString bound.toNat

/-- What stands after the colon. -/
def renderSpec (a : Argument) : String :=
  if a.hasChoices then " | ".intercalate (a.choices.map choiceText)
  else if a.hasBounds then
    boundExpression "x" (a.min.map (boundText a.type)) (a.max.map (boundText a.type))
  else if a.hasLength then
    boundExpression "l" (a.minLength.map lengthText) (a.maxLength.map lengthText)
  else a.type.keyword

/-- The argument in brackets, such as `[*q: string]`. -/
def render (a : Argument) : String :=
  (if a.required then "<" else "[") ++ (if a.autocomplete then "*" else "") ++ a.name ++ ": "
    ++ a.renderSpec ++ (if a.required then ">" else "]")

end Argument

end SlashCommands
