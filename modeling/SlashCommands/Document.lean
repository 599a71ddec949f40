import SlashCommands.Json

/-!
# Documents

A settings or documentation file, whatever format it is written in, holds lists and maps of scalars.
A scalar says how it may be read: its format decides whether a numeral is also a text, or whether an
absent value is written as a word. A special value can only be read by those who know what to
expect, and is the inner value for them.
-/

namespace SlashCommands

/-- A single value, and everything it may be read as. -/
structure Scalar where
  /-- The text, where a text is wanted. -/
  text : Option String
  /-- The number, where a 64-bit count is wanted. -/
  count : Option Nat
  /-- Whether it is a text where nothing in particular is wanted. -/
  isText : Bool
  /-- Whether an optional value is absent. -/
  isNull : Bool
  /-- Whether it stands for an empty list or map. -/
  isEmpty : Bool
deriving DecidableEq, Inhabited

/-- What a file holds, without its format. -/
inductive Document
  | leaf (scalar : Scalar)
  /-- The flag tells whether a record may not have more items than it has fields. -/
  | list (items : List Document) (closed : Bool)
  | map (fields : List (String × Document))
  | special (inner : Document)
deriving Inhabited

namespace Scalar

/-- A value that can be nothing in particular. -/
def other : Scalar :=
  ⟨none, none, false, false, false⟩

/-- A text that is nothing else. -/
def ofString (text : String) : Scalar :=
  { other with text := some text, isText := true }

/-- A count, written without quotes. -/
def ofNat (n : Nat) : Scalar :=
  { other with count := some n }

/-- The absent value. -/
def null : Scalar :=
  { other with isNull := true }

end Scalar

namespace Document

mutual

/-- The value as a document, level by level. -/
def ofJsonValue : Json → Document
  | .null => leaf .null
  | .int value => leaf (if 0 ≤ value then .ofNat value.toNat else .other)
  | .str value => leaf (.ofString value)
  | .arr items => list (ofJsonItems items) true
  | .obj fields => map (ofJsonFields fields)
  | .bool _ => leaf .other
  | .float _ => leaf .other

/-- The items of a list as documents, in their order. -/
def ofJsonItems : List Json → List Document
  | [] => []
  | item :: items => ofJsonValue item :: ofJsonItems items

/-- The fields of a map as documents under their names. -/
def ofJsonFields : List (String × Json) → List (String × Document)
  | [] => []
  | field :: fields => (field.1, ofJsonValue field.2) :: ofJsonFields fields

end

/-- A value that is senseless in parts can only be read by those who do not look at these. -/
def ofJson (value : Json) : Document :=
  if value.isSound then ofJsonValue value else special (ofJsonValue value)

mutual

/-- How deep lists and maps are nested. -/
def depth : Document → Nat
  | leaf _ => 0
  | list items _ => depthItems items + 1
  | map fields => depthFields fields + 1
  | special inner => inner.depth

/-- The deepest nesting among some items. -/
def depthItems : List Document → Nat
  | [] => 0
  | item :: items => max item.depth (depthItems items)

/-- The deepest nesting among some fields. -/
def depthFields : List (String × Document) → Nat
  | [] => 0
  | field :: fields => max field.2.depth (depthFields fields)

end

mutual

/-- Whether every value can be read without knowing what to expect. -/
def isPlain : Document → Bool
  | leaf _ => true
  | list items _ => arePlain items
  | map fields => arePlainFields fields
  | special _ => false

/-- Whether all items can be read without knowing what to expect. -/
def arePlain : List Document → Bool
  | [] => true
  | item :: items => item.isPlain && arePlain items

/-- Whether all fields can be read without knowing what to expect. -/
def arePlainFields : List (String × Document) → Bool
  | [] => true
  | field :: fields => field.2.isPlain && arePlainFields fields

end

/-- What is given under a name, as often as the name occurs. -/
def occurrences (fields : List (String × Document)) (name : String) : List Document :=
  (fields.filter fun field => field.1 == name).map (·.2)

/-- What is given for each of the named fields, by name or by place. -/
def record? (names : List String) : Document → Option (List (Option Document))
  | map fields =>
    if names.all fun name => (occurrences fields name).length ≤ 1 then
      some (names.map fun name => (occurrences fields name).head?)
    else none
  | list items closed =>
    if closed && names.length < items.length then none
    else
      let given := (items.map some).take names.length
      some (given ++ List.replicate (names.length - given.length) none)
  | leaf scalar => if scalar.isEmpty then some (names.map fun _ => none) else none
  | special inner => inner.record? names

/-- A text, where one is wanted. -/
def readText : Document → Option String
  | leaf scalar => scalar.text
  | special inner => inner.readText
  | _ => none

/-- A count that fits a 64-bit word. -/
def readCount : Document → Option Nat
  | leaf scalar => scalar.count.filter (· < Nat.pow 2 64)
  | special inner => inner.readCount
  | _ => none

/-- Whether an optional value is absent. -/
def isNull : Document → Bool
  | leaf scalar => scalar.isNull
  | special inner => inner.isNull
  | _ => false

/-- A value that may be absent. -/
def readOptional {α : Type} (read : Document → Option α) (document : Document) :
    Option (Option α) :=
  if document.isNull then some none else (read document).map some

/-- A list whose items are read alike. An empty scalar is the empty list. -/
def readList {α : Type} (read : Document → Option α) : Document → Option (List α)
  | list items _ => items.mapM read
  | leaf scalar => if scalar.isEmpty then some [] else none
  | map _ => none
  | special inner => inner.readList read

/-- A field that may be missing. -/
def orElse {α : Type} (read : Document → Option α) (default : α) : Option Document → Option α
  | none => some default
  | some value => read value

end Document

end SlashCommands
