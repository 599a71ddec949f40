import SlashCommands.ArgumentType
import SlashCommands.Numeric.Decimal
import SlashCommands.Numeric.Shortest

/-!
# Literals

A bound is a `Number`, a choice is a number or a text. An integer literal that fits 64 bits stays an
integer, any other numeral becomes a double; a list of choices is read at the narrowest type that
all its literals have.
-/

namespace SlashCommands

/-- A numeric literal. -/
inductive Number
  | int (value : Int64)
  | float (value : Binary64)
deriving DecidableEq, Inhabited

/-- A fixed choice of an argument, or a suggested value. -/
inductive Choice
  | integer (value : Int64)
  | float (value : Binary64)
  | string (value : String)
deriving DecidableEq, Inhabited

/-- A 64-bit integer in digits. -/
def int64Text (value : Int64) : String :=
  toString value.toInt

/-- The integer as a 64-bit word, if it fits. -/
def int64OfInt? (i : Int) : Option Int64 :=
  if Int64.minValue.toInt ≤ i ∧ i ≤ Int64.maxValue.toInt then some (.ofInt i) else none

namespace Number

/-- Reads a numeral between optional blanks. Infinite values are no numbers. -/
def ofChars? (cs : List Char) : Option Number :=
  let numeral := Text.trim cs
  match (Decimal.readInt numeral).bind int64OfInt? with
  | some value => some (int value)
  | none => ((Decimal.readBinary64 numeral).filter (·.isFinite)).map float

/-- The number as a double, the nearest one if none is equal. -/
def toBinary64 : Number → Binary64
  | int value => .ofInt value.toInt
  | float value => value

/-- Whether it was written without a decimal point. -/
def isInteger : Number → Bool
  | int _ => true
  | float _ => false

/-- The number in digits. -/
def text : Number → String
  | int value => int64Text value
  | float value => value.text

/-- An integer literal of a float argument is a double. -/
def coerce (type : ArgumentType) : Number → Number
  | int value => if type = .float then float (.ofInt value.toInt) else int value
  | float value => float value

end Number

namespace Choice

/-- The choice as its user sees it. -/
def text : Choice → String
  | integer value => int64Text value
  | float value => value.text
  | string value => value

/-- A number as a choice. -/
def ofNumber : Number → Choice
  | .int value => integer value
  | .float value => float value

/-- The type and the values of a list of written choices. -/
def infer (literals : List (List Char)) : ArgumentType × List Choice :=
  match literals.mapM Number.ofChars? with
  | none => (.string, literals.map fun cs => string (String.ofList cs))
  | some numbers =>
    if numbers.all Number.isInteger then (.integer, numbers.map ofNumber)
    else (.float, numbers.map fun n => float n.toBinary64)

/-- The type a value of this shape needs. -/
def type : Choice → ArgumentType
  | integer _ => .integer
  | float _ => .float
  | string _ => .string

/-- Whether the choice is a literal of the type. -/
def fits : Choice → ArgumentType → Bool
  | string _, .string => true
  | integer _, .integer => true
  | integer _, .float => true
  | float _, .float => true
  | _, _ => false

/-- An integer choice of a float argument is a double. -/
def coerce (type : ArgumentType) : Choice → Choice
  | integer value => if type = .float then float (.ofInt value.toInt) else integer value
  | other => other

end Choice

end SlashCommands
