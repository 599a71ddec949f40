import SlashCommands.Numeric.Shortest
import SlashCommands.Data.SortedMap

/-!
# JSON values

Integers and doubles are different values. The fields of an object are kept as they were written,
with repetitions, so that a reader may refuse them. The readers below take a value apart the way
records are read: a record is an object whose known fields occur once, or an array of its fields in
their order; a field may be required, may have a default, or may be absent or null.
-/

namespace SlashCommands

/-- A JSON value. The fields of an object keep their order and may repeat a name. -/
inductive Json
  | null
  | bool (value : Bool)
  | int (value : Int)
  | float (value : Binary64)
  | str (value : String)
  | arr (items : List Json)
  | obj (fields : List (String × Json))
deriving Inhabited

namespace Json

mutual

/-- How deep lists and records are nested. -/
def depth : Json → Nat
  | arr items => depthItems items + 1
  | obj fields => depthFields fields + 1
  | _ => 0

/-- The deepest nesting among some items. -/
def depthItems : List Json → Nat
  | [] => 0
  | item :: items => max item.depth (depthItems items)

/-- The deepest nesting among some fields. -/
def depthFields : List (String × Json) → Nat
  | [] => 0
  | field :: fields => max field.2.depth (depthFields fields)

end

mutual

/-- Whether every double in the value is finite. -/
def isFinite : Json → Bool
  | float value => value.isFinite
  | arr items => areFinite items
  | obj fields => areFiniteFields fields
  | _ => true

/-- Whether all items can be written. -/
def areFinite : List Json → Bool
  | [] => true
  | item :: items => item.isFinite && areFinite items

/-- Whether all fields can be written. -/
def areFiniteFields : List (String × Json) → Bool
  | [] => true
  | field :: fields => field.2.isFinite && areFiniteFields fields

end

/-- Whether all of the value makes sense and it is not nested too deep. -/
def isSound (value : Json) : Bool :=
  value.depth ≤ 127 && value.isFinite

/-- Whether it is the absent value. -/
def isNull : Json → Bool
  | null => true
  | _ => false

/-- Whether it is a text. -/
def isString : Json → Bool
  | str _ => true
  | _ => false

/-- Whether it is an object. -/
def isObject : Json → Bool
  | obj _ => true
  | _ => false

/-- Whether it is an array. -/
def isArray : Json → Bool
  | arr _ => true
  | _ => false

/-- The first value under a name. -/
def lookup (fields : List (String × Json)) (name : String) : Option Json :=
  (fields.find? fun field => field.1 == name).map (·.2)

/-- Whether a name does not occur twice. -/
def occursOnce (fields : List (String × Json)) (name : String) : Bool :=
  (fields.filter fun field => field.1 == name).length ≤ 1

/-- What is given for each of the named fields. -/
def record? (names : List String) : Json → Option (List (Option Json))
  | obj fields =>
    if names.all (occursOnce fields) then some (names.map (lookup fields)) else none
  | arr items =>
    if items.length ≤ names.length then
      some (items.map some ++ List.replicate (names.length - items.length) none)
    else none
  | _ => none

/-- A field that has to be there. -/
def need {α : Type} (read : Json → Option α) (field : Option Json) : Option α :=
  field.bind read

/-- A field that may be missing. -/
def orElse {α : Type} (read : Json → Option α) (default : α) : Option Json → Option α
  | none => some default
  | some value => read value

/-- A field that may be missing or null. -/
def orNone {α : Type} (read : Json → Option α) : Option Json → Option (Option α)
  | none => some none
  | some null => some none
  | some value => (read value).map some

/-- A text. -/
def readString : Json → Option String
  | str value => some value
  | _ => none

/-- A truth value. -/
def readBool : Json → Option Bool
  | bool value => some value
  | _ => none

/-- A whole number below a limit. -/
def readBelow (limit : Nat) : Json → Option Nat
  | int value => if 0 ≤ value ∧ value < limit then some value.toNat else none
  | _ => none

/-- An array whose items are read alike. -/
def readList {α : Type} (read : Json → Option α) : Json → Option (List α)
  | arr items => items.mapM read
  | _ => none

/-- A map; the last entry of a key stays. -/
def readMap {α : Type} (read : Json → Option α) : Json → Option (SortedMap String α)
  | obj fields => do
    let entries ← fields.mapM fun field => (read field.2).map fun value => (field.1, value)
    return .ofList entries
  | _ => none

/-- The absent value is written as null. -/
def ofOption {α : Type} (write : α → Json) : Option α → Json
  | none => null
  | some value => write value

/-- A map is written in the order of its keys. -/
def ofMap {α : Type} (write : α → Json) (m : SortedMap String α) : Json :=
  obj (m.entries.map fun e => (e.1, write e.2))

/-- A double as a value; what is not finite has no JSON form but null. -/
def ofBinary64 (value : Binary64) : Json :=
  if value.isFinite then float value else null

end Json

end SlashCommands
