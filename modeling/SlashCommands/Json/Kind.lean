import SlashCommands.Check
import SlashCommands.Json

/-!
# Kinds of JSON values

The kinds that a value from outside can be held against.
-/

namespace SlashCommands

/-- A shape that is asked of a value. -/
inductive JsonKind
  | string
  | object
  | array
deriving DecidableEq

namespace JsonKind

/-- The shape as errors name it. -/
def description : JsonKind → String
  | string => "a string"
  | object => "an object"
  | array => "an array"

/-- Whether a value has the shape. -/
def holds (kind : JsonKind) (value : Json) : Bool :=
  match kind with
  | string => value.isString
  | object => value.isObject
  | array => value.isArray

end JsonKind

/-- Fails unless the value is of the kind. -/
def Check.kind (value : Json) (expected : JsonKind) (what : String) : Checked Unit :=
  if expected.holds value then .ok () else .error (.wrongKind what expected.description)

end SlashCommands
